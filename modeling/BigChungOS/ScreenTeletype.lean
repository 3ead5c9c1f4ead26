import BigChungOS.Lib.Teletype
import BigChungOS.Screen

/-!
# The screen driver is a terminal

A page of video memory with the cursor of lib.c is a teletype of 25 rows and 80 columns, each cell a character and its
attribute (`Screen.teletype`).  On it, `putc` and `rm_c` are the operations of the teletype: print, go to the next row,
rub out (`driver_refines_teletype`).  The scroll that `putc` has twice, with the cursor below the grid, is once the
teletype's `nextRow`.
-/

namespace BigChungOS

open Memory Teletype

/-- A character on the screen and its attribute. -/
abbrev Cell := UInt8 × UInt8

/-- A cell of the row that comes up from below. -/
def blankCell : Cell := (space, attrib)

/-- A cell whose character has been removed. -/
def erasedCell : Cell := (0, attrib)

/-- What printing a character does to a terminal. -/
def putcReference (c : UInt8) (t : Teletype 25 80 Cell) : Teletype 25 80 Cell :=
  if c = 0 ∨ c = newline ∧ t.col = 0 then t
  else if c = newline ∨ c = 0x0D then t.nextRow blankCell
  else t.put blankCell (c, attrib)

/-- What removing the last character does to a terminal; `first` is the first character of the line. -/
def rmCReference (first : UInt8) (t : Teletype 25 80 Cell) : Teletype 25 80 Cell :=
  if first = newline ∨ first = 0 then t else t.rubOut erasedCell

namespace Screen

/-- Cell `n` of the page at `page`. -/
def cell (s : Screen) (page n : Nat) : Cell := (s.vram (page + 2 * n), s.vram (page + 2 * n + 1))

/-- The page at `page`, with the cursor. -/
def teletype (s : Screen) (page : Nat) (h : InGrid s) : Teletype 25 80 Cell where
  cells r c := s.cell page (80 * r + c)
  row := ⟨s.screenY, h.2⟩
  col := ⟨s.screenX, h.1⟩

theorem teletype_pos (s : Screen) (page : Nat) (h : InGrid s) :
    (s.teletype page h).pos = 80 * s.screenY + s.screenX := by
  rw [Nat.mul_comm]
  rfl

/-- The tape is the page, cell by cell. -/
theorem teletype_tape (s : Screen) (page : Nat) (h : InGrid s) {n : Nat} (hn : n < 2000) :
    (s.teletype page h).tape blankCell n = s.cell page n := by
  have hnumber : ∃ (r : Fin 25) (c : Fin 80), n = number r c := exists_number (by omega) hn
  obtain ⟨r, c, rfl⟩ := hnumber
  rw [tape_number, number, Nat.mul_comm]
  rfl

/-! ### Cells -/

private theorem cell_setCell (s : Screen) (n m : Nat) (c : UInt8) :
    (s.setCell n c).cell s.videoMem m = if m = n then (c, attrib) else s.cell s.videoMem m := by
  unfold cell setCell
  dsimp only
  by_cases h : m = n
  · subst h
    rw [if_pos rfl, Function.update_of_ne (by omega), Function.update_self, Function.update_self]
  · rw [if_neg h, Function.update_of_ne (by omega), Function.update_of_ne (by omega),
      Function.update_of_ne (by omega), Function.update_of_ne (by omega)]

/-- A loop that writes the same character into the cells from `lo` on. -/
private theorem cell_foldl_setCell (s : Screen) (lo n m : Nat) (c : UInt8) :
    ((List.range n).foldl (fun t idx => t.setCell (lo + idx) c) s).cell s.videoMem m =
      if lo ≤ m ∧ m < lo + n then (c, attrib) else s.cell s.videoMem m := by
  induction n with
  | zero => exact (if_neg (by omega)).symm
  | succ n ih =>
    have hvideo : ∀ (l : List Nat) (t : Screen),
        (l.foldl (fun t idx => t.setCell (lo + idx) c) t).videoMem = t.videoMem := by
      intro l
      induction l with
      | nil => exact fun _ => rfl
      | cons i l ih => exact fun t => ih _
    rw [List.range_succ, List.foldl_append, List.foldl_cons, List.foldl_nil]
    have hlast := cell_setCell ((List.range n).foldl (fun t idx => t.setCell (lo + idx) c) s) (lo + n) m c
    rw [hvideo] at hlast
    rw [hlast, ih]
    by_cases hm : m = lo + n
    · rw [if_pos hm, if_pos (by omega)]
    · rw [if_neg hm]
      by_cases hin : lo ≤ m ∧ m < lo + n
      · rw [if_pos hin, if_pos (by omega)]
      · rw [if_neg hin, if_neg (by omega)]

/-- The rows after a scroll. -/
private theorem cell_scroll (s : Screen) (hx : s.screenX = 0) (hy : s.screenY = 25) {m : Nat} (hm : m < 2000) :
    s.scroll.cell s.videoMem m = if m < 1920 then s.cell s.videoMem (m + 80) else blankCell := by
  let moved : Screen := { s with vram := blit s.vram s.videoMem (s.videoMem + 160) 3840, screenY := 24 }
  have hscroll : s.scroll = moved.blankRow := if_pos (by omega)
  have hlo : 80 * moved.screenY + moved.screenX = 1920 := by
    show 80 * 24 + s.screenX = 1920
    rw [hx]
  rw [hscroll, blankRow_eq, hlo]
  refine (cell_foldl_setCell moved 1920 80 m space).trans ?_
  by_cases h : m < 1920
  · have hlow : moved.vram (s.videoMem + 2 * m) = s.vram (s.videoMem + 2 * (m + 80)) :=
      (blit_of_mem (by omega)).trans (congrArg s.vram (by omega))
    have hhigh : moved.vram (s.videoMem + 2 * m + 1) = s.vram (s.videoMem + 2 * (m + 80) + 1) := by
      rw [Nat.add_assoc]
      exact (blit_of_mem (by omega)).trans (congrArg s.vram (by omega))
    rw [if_neg (by omega), if_pos h]
    exact Prod.ext hlow hhigh
  · rw [if_pos (by omega), if_neg h]
    rfl

/-! ### The operations -/

/-- Two pages are the same teletype if the cursors and the cells are. -/
private theorem teletype_ext {s : Screen} {page : Nat} {h : InGrid s} {t : Teletype 25 80 Cell}
    (hrow : s.screenY = t.row) (hcol : s.screenX = t.col)
    (hcells : ∀ (r : Fin 25) (c : Fin 80), s.cell page (80 * r + c) = t.cells r c) : s.teletype page h = t := by
  obtain ⟨cells, row, col⟩ := t
  have hcells' : (fun (r : Fin 25) (c : Fin 80) => s.cell page (80 * r + c)) = cells :=
    funext fun r => funext fun c => hcells r c
  have hrow' : (⟨s.screenY, h.2⟩ : Fin 25) = row := Fin.ext hrow
  have hcol' : (⟨s.screenX, h.1⟩ : Fin 80) = col := Fin.ext hcol
  rw [teletype, hcells', hrow', hcol']

theorem teletype_congr {s s' : Screen} (heq : s = s') (page : Nat) (h : InGrid s) (h' : InGrid s') :
    s.teletype page h = s'.teletype page h' := by
  subst heq
  rfl

/-- A character stored at the cursor. -/
private theorem setCell_teletype (s : Screen) (h : InGrid s) (c : UInt8) :
    (s.setCell (80 * s.screenY + s.screenX) c).teletype s.videoMem h =
      (s.teletype s.videoMem h).write (c, attrib) := by
  refine teletype_ext rfl rfl fun r col => ?_
  rw [cell_setCell]
  have hcell : 80 * (r : Nat) + col = 80 * s.screenY + s.screenX ↔
      r = (⟨s.screenY, h.2⟩ : Fin 25) ∧ col = (⟨s.screenX, h.1⟩ : Fin 80) := by
    rw [Fin.ext_iff, Fin.ext_iff]
    have hcol := col.isLt
    have hx := h.1
    dsimp only
    omega
  by_cases hr : r = (⟨s.screenY, h.2⟩ : Fin 25)
  · subst hr
    by_cases hc : col = (⟨s.screenX, h.1⟩ : Fin 80)
    · subst hc
      simp [write, teletype]
    · have hne : ¬80 * s.screenY + col = 80 * s.screenY + s.screenX := fun heq => hc (hcell.1 heq).2
      rw [if_neg hne]
      simp [write, teletype, hc]
  · rw [if_neg fun heq => hr (hcell.1 heq).1]
    simp [write, teletype, hr]

/-- The cursor goes to the next row, and the page scrolls if that is below the last one. -/
private theorem scroll_teletype (s : Screen) (h : InGrid s) (s' : Screen)
    (hs' : s' = { s with screenY := s.screenY + 1, screenX := 0 }) (h' : InGrid s'.scroll) :
    s'.scroll.teletype s.videoMem h' = (s.teletype s.videoMem h).nextRow blankCell := by
  subst hs'
  by_cases hlast : s.screenY + 1 < 25
  · have hstay : scroll { s with screenY := s.screenY + 1, screenX := 0 } =
        { s with screenY := s.screenY + 1, screenX := 0 } := if_neg (by simp only; omega)
    have hnext : (s.teletype s.videoMem h).nextRow blankCell =
        { s.teletype s.videoMem h with row := ⟨s.screenY + 1, hlast⟩, col := 0 } := dif_pos hlast
    rw [hnext]
    refine teletype_ext ?_ ?_ fun r col => ?_
    · rw [hstay]
    · rw [hstay]
      rfl
    · rw [hstay]
      rfl
  · have hy : s.screenY + 1 = 25 := by
      have := h.2
      omega
    have hcursor : (scroll { s with screenY := s.screenY + 1, screenX := 0 }).cursor = (0, 24) := by
      rw [scroll_cursor, hy]
      rfl
    have hnext : (s.teletype s.videoMem h).nextRow blankCell =
        { s.teletype s.videoMem h with
          cells := fun r c => if hr : (r : Nat) + 1 < 25 then (s.teletype s.videoMem h).cells ⟨r + 1, hr⟩ c
            else blankCell
          col := 0 } := dif_neg hlast
    rw [hnext]
    refine teletype_ext ?_ ?_ fun r col => ?_
    · have := congrArg Prod.snd hcursor
      exact this.trans (by show 24 = s.screenY; omega)
    · exact congrArg Prod.fst hcursor
    · have hr := r.isLt
      have hcol := col.isLt
      refine (cell_scroll { s with screenY := s.screenY + 1, screenX := 0 } rfl hy (by omega)).trans ?_
      dsimp only
      by_cases hup : (r : Nat) + 1 < 25
      · rw [dif_pos hup, if_pos (by omega)]
        exact congrArg (s.cell s.videoMem) (by show 80 * (r : Nat) + col + 80 = 80 * ((r : Nat) + 1) + col; omega)
      · rw [dif_neg hup, if_neg (by omega)]

private theorem putChar_teletype (s : Screen) (h : InGrid s) (c : UInt8) (h' : InGrid (s.putChar c)) :
    (s.putChar c).teletype s.videoMem h' = if c = newline ∨ c = 0x0D then (s.teletype s.videoMem h).nextRow blankCell
      else (s.teletype s.videoMem h).put blankCell (c, attrib) := by
  have hx := h.1
  have hy := h.2
  by_cases hnew : c = newline ∨ c = 0x0D
  · have hchar : s.putChar c = scroll { s with screenY := s.screenY + 1, screenX := 0 } := if_pos hnew
    rw [if_pos hnew, ← scroll_teletype s h _ rfl (hchar ▸ h')]
    exact teletype_congr hchar _ _ _
  · let stored := s.setCell (80 * s.screenY + s.screenX) c
    have hstored : InGrid stored := h
    have hput : (s.teletype s.videoMem h).put blankCell (c, attrib) =
        (stored.teletype s.videoMem hstored).advance blankCell := by
      rw [put, ← setCell_teletype s h c]
    have hchar : s.putChar c = scroll { stored with
        screenY := s.screenY + (s.screenX + 1) / 80, screenX := (s.screenX + 1) % 80 } := if_neg hnew
    rw [if_neg hnew, hput]
    by_cases hwrap : s.screenX + 1 < 80
    · have hmove : s.putChar c = { stored with screenX := s.screenX + 1 } := by
        rw [hchar, Nat.div_eq_of_lt hwrap, Nat.mod_eq_of_lt hwrap]
        exact if_neg (by simp only; omega)
      have hmoved : InGrid { stored with screenX := s.screenX + 1 } := ⟨hwrap, hy⟩
      have hadvance : (stored.teletype s.videoMem hstored).advance blankCell =
          teletype { stored with screenX := s.screenX + 1 } s.videoMem hmoved := advance_of_lt _ hwrap
      rw [hadvance]
      exact teletype_congr hmove _ _ _
    · have hcol : s.screenX + 1 = 80 := by omega
      have hmove : s.putChar c = scroll { stored with screenY := s.screenY + 1, screenX := 0 } := by
        rw [hchar, hcol]
      have hadvance : (stored.teletype s.videoMem hstored).advance blankCell =
          (stored.teletype s.videoMem hstored).nextRow blankCell := advance_of_last _ hwrap
      have hscroll := scroll_teletype stored hstored _ rfl (hmove ▸ h')
      rw [hadvance]
      exact (teletype_congr hmove _ _ _).trans hscroll

/-- `putc` prints on the page it writes to. -/
theorem putc_teletype (s : Screen) (h : InGrid s) (videoBuffer : Nat) (toMain : Bool) (c : UInt8)
    (h' : InGrid (s.putc videoBuffer toMain c)) :
    (s.putc videoBuffer toMain c).teletype (target videoBuffer toMain) h' =
      putcReference c (s.teletype (target videoBuffer toMain) h) := by
  have hstart : (c = 0 ∨ c = newline ∧ s.screenX = 0) ↔
      (c = 0 ∨ c = newline ∧ (s.teletype (target videoBuffer toMain) h).col = 0) := by
    rw [Fin.ext_iff]
    rfl
  by_cases hskip : c = 0 ∨ c = newline ∧ s.screenX = 0
  · have hsame : s.putc videoBuffer toMain c = { s with videoMem := videoBuffer } := by
      rcases hskip with hzero | hnew
      · exact if_pos hzero
      · have hzero : c ≠ 0 := by
          rw [hnew.1]
          decide
        exact (if_neg hzero).trans (if_pos hnew)
    rw [putcReference, if_pos (hstart.1 hskip)]
    exact teletype_congr hsame _ h' h
  · have hprint : ∀ page (hp : InGrid (putChar { s with videoMem := page } c)),
        (putChar { s with videoMem := page } c).teletype page hp = putcReference c (s.teletype page h) := by
      intro page hp
      have hnot : ¬(c = 0 ∨ c = newline ∧ (s.teletype page h).col = 0) := mt hstart.2 hskip
      rw [putcReference, if_neg hnot]
      exact putChar_teletype { s with videoMem := page } h c hp
    rw [not_or] at hskip
    have hcall : s.putc videoBuffer toMain c = if toMain then
        { putChar { s with videoMem := mainVideo } c with videoMem := s.videoMem }
        else putChar { s with videoMem := videoBuffer } c := (if_neg hskip.1).trans (if_neg hskip.2)
    cases toMain with
    | true =>
      have hmain : InGrid (putChar { s with videoMem := mainVideo } c) := by
        rw [hcall, if_pos rfl] at h'
        exact h'
      exact (teletype_congr (hcall.trans (if_pos rfl)) _ h' hmain).trans (hprint mainVideo hmain)
    | false =>
      have hbuffer : InGrid (putChar { s with videoMem := videoBuffer } c) := by
        rw [hcall, if_neg Bool.false_ne_true] at h'
        exact h'
      exact (teletype_congr (hcall.trans (if_neg Bool.false_ne_true)) _ h' hbuffer).trans (hprint videoBuffer hbuffer)

private theorem rmChar_teletype (s : Screen) (h : InGrid s) (hstart : ¬(s.screenY = 0 ∧ s.screenX = 0))
    (h' : InGrid s.rmChar) :
    s.rmChar.teletype s.videoMem h' = (s.teletype s.videoMem h).rubOut erasedCell := by
  have hx := h.1
  have hy := h.2
  have hpos : (s.teletype s.videoMem h).pos ≠ 0 := by
    show s.screenY * 80 + s.screenX ≠ 0
    omega
  rw [rubOut, if_neg hpos]
  -- the cursor moves, and then the cell it has come to is overwritten
  by_cases hcol : s.screenX ≠ 0
  · let moved : Screen := { s with screenX := s.screenX - 1 }
    have hmoved : InGrid moved := ⟨by show s.screenX - 1 < 80; omega, hy⟩
    have hcell : 80 * s.screenY + s.screenX - 1 = 80 * moved.screenY + moved.screenX := by
      show _ = 80 * s.screenY + (s.screenX - 1)
      omega
    have hchar : s.rmChar = moved.setCell (80 * moved.screenY + moved.screenX) 0 := by
      rw [← hcell]
      exact if_pos hcol
    have hback : (s.teletype s.videoMem h).back = moved.teletype moved.videoMem hmoved := if_pos hcol
    rw [hback]
    exact (teletype_congr hchar _ _ hmoved).trans (setCell_teletype moved hmoved 0)
  · have hrow : s.screenY ≠ 0 := fun hy => hstart ⟨hy, not_not.1 hcol⟩
    let moved : Screen := { s with screenX := 79, screenY := s.screenY - 1 }
    have hmoved : InGrid moved := ⟨by show 79 < 80; omega, by show s.screenY - 1 < 25; omega⟩
    have hcell : 80 * s.screenY + s.screenX - 1 = 80 * moved.screenY + moved.screenX := by
      show _ = 80 * (s.screenY - 1) + 79
      omega
    have hchar : s.rmChar = moved.setCell (80 * moved.screenY + moved.screenX) 0 := by
      rw [← hcell]
      exact (if_neg hcol).trans (if_pos hrow)
    have hback : (s.teletype s.videoMem h).back = moved.teletype moved.videoMem hmoved :=
      (if_neg hcol).trans (if_pos hrow)
    rw [hback]
    exact (teletype_congr hchar _ _ hmoved).trans (setCell_teletype moved hmoved 0)

/-- `rm_c` rubs out on the page it writes to. -/
theorem rmC_teletype (s : Screen) (h : InGrid s) (videoBuffer : Nat) (toMain : Bool) (first : UInt8)
    (h' : InGrid (s.rmC videoBuffer toMain first)) :
    (s.rmC videoBuffer toMain first).teletype (target videoBuffer toMain) h' =
      rmCReference first (s.teletype (target videoBuffer toMain) h) := by
  have hzero : (s.teletype (target videoBuffer toMain) h).pos = 0 ↔ s.screenY = 0 ∧ s.screenX = 0 := by
    show s.screenY * 80 + s.screenX = 0 ↔ _
    omega
  by_cases hskip : (s.screenY = 0 ∧ s.screenX = 0) ∨ (first = newline ∨ first = 0)
  · have hsame : s.rmC videoBuffer toMain first = { s with videoMem := videoBuffer } := by
      by_cases hstart : s.screenY = 0 ∧ s.screenX = 0
      · exact if_pos hstart
      · exact (if_neg hstart).trans (if_pos (hskip.resolve_left hstart))
    have hremoved : rmCReference first (s.teletype (target videoBuffer toMain) h) =
        s.teletype (target videoBuffer toMain) h := by
      unfold rmCReference
      split
      · rfl
      · rename_i hfirst
        exact if_pos (hzero.2 (hskip.resolve_right hfirst))
    rw [hremoved]
    exact teletype_congr hsame _ h' h
  · obtain ⟨hstart, hfirst⟩ := not_or.1 hskip
    have herase : ∀ page (hp : InGrid (rmChar { s with videoMem := page })),
        (rmChar { s with videoMem := page }).teletype page hp = rmCReference first (s.teletype page h) := by
      intro page hp
      rw [rmCReference, if_neg hfirst]
      exact rmChar_teletype { s with videoMem := page } h hstart hp
    have hcall : s.rmC videoBuffer toMain first = if toMain then
        { rmChar { s with videoMem := mainVideo } with videoMem := s.videoMem }
        else rmChar { s with videoMem := videoBuffer } := (if_neg hstart).trans (if_neg hfirst)
    cases toMain with
    | true =>
      have hmain : InGrid (rmChar { s with videoMem := mainVideo }) := by
        rw [hcall, if_pos rfl] at h'
        exact h'
      exact (teletype_congr (hcall.trans (if_pos rfl)) _ h' hmain).trans (herase mainVideo hmain)
    | false =>
      have hbuffer : InGrid (rmChar { s with videoMem := videoBuffer }) := by
        rw [hcall, if_neg Bool.false_ne_true] at h'
        exact h'
      exact (teletype_congr (hcall.trans (if_neg Bool.false_ne_true)) _ h' hbuffer).trans (herase videoBuffer hbuffer)

end Screen

/-! ### Calls of the driver -/

/-- A call of `putc` or `rm_c`, with what it reads from the other files: the buffer of the terminal, whether it writes
to `VIDEO` and, for `rm_c`, the first character of the line. -/
inductive DriverCall
  | putc (videoBuffer : Nat) (toMain : Bool) (c : UInt8)
  | rmC (videoBuffer : Nat) (toMain : Bool) (first : UInt8)

namespace DriverCall

/-- The screen after the call. -/
def run (s : Screen) : DriverCall → Screen
  | putc videoBuffer toMain c => s.putc videoBuffer toMain c
  | rmC videoBuffer toMain first => s.rmC videoBuffer toMain first

/-- The page it writes to. -/
def page : DriverCall → Nat
  | putc videoBuffer toMain _ => Screen.target videoBuffer toMain
  | rmC videoBuffer toMain _ => Screen.target videoBuffer toMain

/-- What it does to a terminal. -/
def reference : DriverCall → Teletype 25 80 Cell → Teletype 25 80 Cell
  | putc _ _ c => putcReference c
  | rmC _ _ first => rmCReference first

variable {s : Screen}

private theorem run_inGrid (h : s.InGrid) (call : DriverCall) : (call.run s).InGrid := by
  cases call with
  | putc videoBuffer toMain c => exact Screen.putc_inGrid h _ _ c
  | rmC videoBuffer toMain first => exact Screen.rmC_inGrid h _ _ first

private theorem run_sameOutside (h : s.InGrid) (call : DriverCall) :
    SameOutside s.vram (call.run s).vram call.page 4000 := by
  cases call with
  | putc videoBuffer toMain c => exact Screen.putc_sameOutside h _ _ c
  | rmC videoBuffer toMain first => exact Screen.rmC_sameOutside h _ _ first

private theorem run_teletype (h : s.InGrid) (call : DriverCall) (h' : (call.run s).InGrid) :
    (call.run s).teletype call.page h' = call.reference (s.teletype call.page h) := by
  cases call with
  | putc videoBuffer toMain c => exact Screen.putc_teletype s h _ _ c h'
  | rmC videoBuffer toMain first => exact Screen.rmC_teletype s h _ _ first h'

private theorem runs_inGrid (h : s.InGrid) (calls : List DriverCall) : (calls.foldl run s).InGrid := by
  induction calls generalizing s with
  | nil => exact h
  | cons call calls ih => exact ih (run_inGrid h call)

/-- Calls that all write to one page do to it what they do to a terminal. -/
private theorem runs_teletype (h : s.InGrid) {calls : List DriverCall} {p : Nat} (hpage : ∀ call ∈ calls, call.page = p)
    (h' : (calls.foldl run s).InGrid) :
    (calls.foldl run s).teletype p h' = calls.foldl (fun t call => call.reference t) (s.teletype p h) := by
  induction calls generalizing s with
  | nil => rfl
  | cons call calls ih =>
    have hcall := run_teletype h call (run_inGrid h call)
    rw [hpage call (List.mem_cons_self ..)] at hcall
    refine (ih (run_inGrid h call) (fun c hc => hpage c (List.mem_cons_of_mem _ hc)) h').trans ?_
    rw [hcall, List.foldl_cons]

end DriverCall

/-- The driver is a terminal.  From a cursor inside the grid, whatever is printed and removed, the cursor stays inside
the grid; a page that all of it has gone to is what a terminal has become; and the next call stores within the 4000
bytes of the page it writes to, and does to that page and the cursor what it does to a terminal. -/
theorem driver_refines_teletype {s : Screen} (h : s.InGrid) (calls : List DriverCall) :
    let s' := calls.foldl DriverCall.run s
    ∃ hgrid : s'.InGrid,
      (∀ page, (∀ call ∈ calls, call.page = page) →
        s'.teletype page hgrid = calls.foldl (fun t call => call.reference t) (s.teletype page h)) ∧
      ∀ call : DriverCall, SameOutside s'.vram (call.run s').vram call.page 4000 ∧
        ∃ hgrid' : (call.run s').InGrid,
          (call.run s').teletype call.page hgrid' = call.reference (s'.teletype call.page hgrid) := by
  have hgrid := DriverCall.runs_inGrid h calls
  refine ⟨hgrid, fun page hpage => DriverCall.runs_teletype h hpage hgrid, fun call => ⟨?_, ?_⟩⟩
  · exact DriverCall.run_sameOutside hgrid call
  · exact ⟨DriverCall.run_inGrid hgrid call, DriverCall.run_teletype hgrid call _⟩

/-- An empty screen with the cursor on its last cell. -/
def lastCell : Screen := ⟨79, 24, mainVideo, fun _ => 0⟩

/-- A character in the last cell scrolls the screen, and the row that came up is left backwards. -/
theorem lastCell_refines_teletype :
    let calls : List DriverCall := [.putc mainVideo true 0x61, .rmC mainVideo true 0x61]
    let s' := calls.foldl DriverCall.run lastCell
    s'.cursor = (79, 23) ∧ s'.cell mainVideo 1919 = erasedCell ∧ ∃ hgrid : s'.InGrid,
      (∀ page, (∀ call ∈ calls, call.page = page) →
        s'.teletype page hgrid =
          calls.foldl (fun t call => call.reference t) (lastCell.teletype page ⟨by decide, by decide⟩)) ∧
      ∀ call : DriverCall, SameOutside s'.vram (call.run s').vram call.page 4000 ∧
        ∃ hgrid' : (call.run s').InGrid,
          (call.run s').teletype call.page hgrid' = call.reference (s'.teletype call.page hgrid) :=
  ⟨by decide +kernel, by decide +kernel, driver_refines_teletype ⟨by decide, by decide⟩ _⟩

end BigChungOS
