import BigChungOS.CursorOwnership
import BigChungOS.LineDelivery

/-!
# Clearing the screen

`clear` blanks the page at `video_mem` and copies it to the buffer of the terminal on screen.  It should blank the page
the display shows and leave the other screens alone, but `video_mem` is where the last call of `putc` or `rm_c` has left
it (`putc_videoMem`): a call that returns early, or that prints on a terminal not on screen, leaves it at the page of
that terminal.  So `clear` may blank a screen nobody sees and leave the visible one as it is; `clear_visible_iff` says
when it does what it should, and `ctrl_l_clears` says the same of the state in which Ctrl and L run it.
-/

namespace BigChungOS

open Memory Transition

/-! ### Blank pages -/

/-- Byte `i` of a page of blank cells: spaces, each with its attribute. -/
def blankByte (i : Nat) : UInt8 := if i % 2 = 0 then space else attrib

/-- The 2000 cells of the page are blank. -/
def Blank (m : Nat → UInt8) (page : Nat) : Prop := ∀ i < 4000, m (page + i) = blankByte i

/-- The first `n` cells of the page blanked. -/
def blanked (m : Nat → UInt8) (page n : Nat) : Nat → UInt8 :=
  fun a => if page ≤ a ∧ a < page + 2 * n then blankByte (a - page) else m a

private theorem blanked_succ (m : Nat → UInt8) (page n : Nat) :
    Function.update (Function.update (blanked m page n) (page + 2 * n) space) (page + 2 * n + 1) attrib =
      blanked m page (n + 1) := by
  funext a
  by_cases hattrib : a = page + 2 * n + 1
  · have hbyte : blankByte (page + 2 * n + 1 - page) = attrib := by
      rw [blankByte, if_neg (by omega)]
    rw [hattrib, Function.update_self, blanked, if_pos (by omega), hbyte]
  rw [Function.update_of_ne hattrib]
  by_cases hspace : a = page + 2 * n
  · have hbyte : blankByte (page + 2 * n - page) = space := by
      rw [blankByte, if_pos (by omega)]
    rw [hspace, Function.update_self, blanked, if_pos (by omega), hbyte]
  rw [Function.update_of_ne hspace, blanked, blanked]
  by_cases hin : page ≤ a ∧ a < page + 2 * n
  · rw [if_pos hin, if_pos (by omega)]
  · rw [if_neg hin, if_neg (by omega)]

/-- The loop of `clear`. -/
private theorem blankCells (s : Screen) (n : Nat) :
    (List.range n).foldl (fun s i => s.setCell i space) s = { s with vram := blanked s.vram s.videoMem n } := by
  induction n with
  | zero =>
    have hnone : blanked s.vram s.videoMem 0 = s.vram := by
      funext a
      rw [blanked, if_neg (by omega)]
    rw [hnone]
    rfl
  | succ n ih =>
    rw [List.range_succ, List.foldl_append, ih, List.foldl_cons, List.foldl_nil, Screen.setCell]
    dsimp only
    rw [blanked_succ]

/-- What `clear` does to the video memory. -/
private theorem clear_vram (k : Kernel) :
    (clear k).screen.vram = blit (blanked k.screen.vram k.screen.videoMem 2000)
      (k.terminals k.onScreen).videoBuffer k.screen.videoMem 4096 := by
  rw [clear, Screen.clear]
  dsimp only
  rw [blankCells]

/-! ### Pages -/

private theorem mainVideo_aligned : 4096 ∣ mainVideo := by
  unfold mainVideo
  omega

private theorem termPage_aligned (t : Fin 3) : 4096 ∣ termPage t := by
  rw [termPage_eq]
  omega

section Pages

variable {m : Nat → UInt8} {src dst page : Nat}

/-- After the page at `src` has been blanked and copied to `dst`, a page is blank if it is one of the two, or was
blank before. -/
private theorem blank_blit_iff (hsrc : 4096 ∣ src) (hdst : 4096 ∣ dst) (hpage : 4096 ∣ page) :
    Blank (blit (blanked m src 2000) dst src 4096) page ↔ src = page ∨ dst = page ∨ Blank m page := by
  by_cases hd : dst = page
  · subst hd
    refine iff_of_true (fun i hi => ?_) (.inr (.inl rfl))
    rw [blit_of_mem (by omega), blanked, if_pos (by omega), Nat.add_sub_cancel_left]
  have hkept : ∀ i < 4000, blit (blanked m src 2000) dst src 4096 (page + i) = blanked m src 2000 (page + i) := by
    intro i hi
    exact sameOutside_blit _ _ _ _ _ (by omega)
  by_cases hs : src = page
  · subst hs
    refine iff_of_true (fun i hi => ?_) (.inl rfl)
    rw [hkept i hi, blanked, if_pos (by omega), Nat.add_sub_cancel_left]
  have hold : ∀ i < 4000, blit (blanked m src 2000) dst src 4096 (page + i) = m (page + i) := by
    intro i hi
    rw [hkept i hi, blanked, if_neg (by omega)]
  constructor
  · exact fun hblank => .inr (.inr fun i hi => (hold i hi).symm.trans (hblank i hi))
  · rintro (heq | heq | hblank)
    · exact absurd heq hs
    · exact absurd heq hd
    · exact fun i hi => (hold i hi).trans (hblank i hi)

/-- A page that is not copied to stays as it is, unless it is blanked; and that changes it unless it is blank. -/
private theorem blit_same_iff (hsrc : 4096 ∣ src) (hdst : 4096 ∣ dst) (hpage : 4096 ∣ page) (hd : dst ≠ page) :
    (∀ i < 4096, blit (blanked m src 2000) dst src 4096 (page + i) = m (page + i)) ↔ (src = page → Blank m page) := by
  have hkept : ∀ i < 4096, blit (blanked m src 2000) dst src 4096 (page + i) = blanked m src 2000 (page + i) := by
    intro i hi
    exact sameOutside_blit _ _ _ _ _ (by omega)
  by_cases hs : src = page
  · subst hs
    constructor
    · intro hsame _ i hi
      rw [← hsame i (by omega), hkept i (by omega), blanked, if_pos (by omega), Nat.add_sub_cancel_left]
    · intro hblank i hi
      rw [hkept i hi, blanked]
      split
      · rw [Nat.add_sub_cancel_left, hblank rfl i (by omega)]
      · rfl
  · refine iff_of_true (fun i hi => ?_) fun heq => absurd heq hs
    rw [hkept i hi, blanked, if_neg (by omega)]

end Pages

/-! ### Where `video_mem` is left -/

private theorem blankRow_videoMem (s : Screen) : s.blankRow.videoMem = s.videoMem := by
  have key : ∀ (l : List Nat) (t : Screen),
      (l.foldl (fun t idx => t.setCell (80 * t.screenY + t.screenX + idx) space) t).videoMem = t.videoMem := by
    intro l
    induction l with
    | nil => exact fun _ => rfl
    | cons _ _ ih => exact fun t => ih _
  exact key _ s

private theorem putChar_videoMem (s : Screen) (c : UInt8) : (s.putChar c).videoMem = s.videoMem := by
  have hscroll : ∀ s : Screen, s.scroll.videoMem = s.videoMem := by
    intro s
    unfold Screen.scroll
    split
    · exact blankRow_videoMem _
    · rfl
  unfold Screen.putChar
  dsimp only
  split
  · exact hscroll _
  · exact hscroll _

private theorem rmChar_videoMem (s : Screen) : s.rmChar.videoMem = s.videoMem := by
  unfold Screen.rmChar
  dsimp only
  split_ifs
  · rfl
  · rfl
  · rfl

/-- `putc` puts `video_mem` back only on the way that prints on the displayed page. -/
theorem putc_videoMem (k : Kernel) (c : UInt8) : (putc k c).screen.videoMem =
    if c = 0 ∨ (c = newline ∧ k.screen.screenX = 0) ∨ k.toMain = false then k.curr.videoBuffer
    else k.screen.videoMem := by
  unfold putc Screen.putc
  dsimp only
  by_cases hnul : c = 0
  · rw [if_pos hnul, if_pos (.inl hnul)]
  rw [if_neg hnul]
  by_cases hline : c = newline ∧ k.screen.screenX = 0
  · rw [if_pos hline, if_pos (.inr (.inl hline))]
  rw [if_neg hline]
  cases hmain : k.toMain with
  | false => simp [putChar_videoMem]
  | true => simp [hnul, hline]

/-- And so does `rm_c`. -/
private theorem rmC_videoMem (k : Kernel) : (rmC k).screen.videoMem =
    if (k.screen.screenY = 0 ∧ k.screen.screenX = 0) ∨ (k.keyboard.keyboardBuffer 0 = newline ∨
      k.keyboard.keyboardBuffer 0 = 0) ∨ k.toMain = false then (k.terminals k.onScreen).videoBuffer
    else k.screen.videoMem := by
  unfold rmC Screen.rmC
  dsimp only
  by_cases hhome : k.screen.screenY = 0 ∧ k.screen.screenX = 0
  · rw [if_pos hhome, if_pos (.inl hhome)]
  rw [if_neg hhome]
  by_cases hempty : k.keyboard.keyboardBuffer 0 = newline ∨ k.keyboard.keyboardBuffer 0 = 0
  · rw [if_pos hempty, if_pos (.inr (.inl hempty))]
  rw [if_neg hempty]
  cases hmain : k.toMain with
  | false => simp [rmChar_videoMem]
  | true => simp [hhome, hempty]

/-- `video_mem` and the buffers of the terminals are at the start of a page. -/
structure PagesOk (k : Kernel) : Prop where
  videoMem : 4096 ∣ k.screen.videoMem
  buffer : ∀ t, 4096 ∣ (k.terminals t).videoBuffer

section Invariant

variable {k k' : Kernel}

theorem PagesOk.same (h : PagesOk k) (hvideo : k'.screen.videoMem = k.screen.videoMem)
    (hbuffer : ∀ t, (k'.terminals t).videoBuffer = (k.terminals t).videoBuffer) : PagesOk k' where
  videoMem := by rw [hvideo]; exact h.videoMem
  buffer t := by rw [hbuffer]; exact h.buffer t

/-- A store to the record of a terminal that leaves a page in its `video_buffer`. -/
theorem PagesOk.setTerminal (h : PagesOk k) (t : Fin 3) {f : TerminalT → TerminalT}
    (hf : 4096 ∣ (f (k.terminals t)).videoBuffer) : PagesOk (k.setTerminal t f) where
  videoMem := h.videoMem
  buffer u := by
    by_cases hu : u = t
    · subst hu
      rw [setTerminal_terminals, Function.update_self]
      exact hf
    · rw [setTerminal_terminals, Function.update_of_ne hu]
      exact h.buffer u

theorem PagesOk.putc (h : PagesOk k) (c : UInt8) : PagesOk (putc k c) where
  videoMem := by
    rw [putc_videoMem]
    split
    · exact h.buffer k.currTerminal
    · exact h.videoMem
  buffer := h.buffer

theorem PagesOk.rmC (h : PagesOk k) : PagesOk (rmC k) where
  videoMem := by
    rw [rmC_videoMem]
    split
    · exact h.buffer k.onScreen
    · exact h.videoMem
  buffer := h.buffer

theorem PagesOk.puts (h : PagesOk k) (s : List UInt8) : PagesOk (puts k s) := by
  induction s generalizing k with
  | nil => exact h
  | cons c s ih => exact ih (h.putc c)

theorem PagesOk.clear (h : PagesOk k) : PagesOk (clear k) := by
  have hvideo : (BigChungOS.clear k).screen.videoMem = k.screen.videoMem := by
    rw [BigChungOS.clear, Screen.clear]
    dsimp only
    rw [blankCells]
  exact h.same hvideo fun _ => rfl

theorem PagesOk.echo (h : PagesOk k) (c : UInt8) : PagesOk (echo k c) := by
  have hflag : PagesOk { k with keyboard := { k.keyboard with keypressToVidFlag := true } } :=
    h.same rfl fun _ => rfl
  exact (hflag.putc c).same rfl fun _ => rfl

theorem PagesOk.erase (h : PagesOk k) : PagesOk (erase k) := by
  have hflag : PagesOk { k with keyboard := { k.keyboard with keypressToVidFlag := true } } :=
    h.same rfl fun _ => rfl
  exact hflag.rmC.same rfl fun _ => rfl

theorem PagesOk.saveCursor (h : PagesOk k) (t : Fin 3) : PagesOk (saveCursor k t) :=
  h.setTerminal t (h.buffer t)

theorem PagesOk.switchTerminalWork (h : PagesOk k) (t : Fin 3) : PagesOk (switchTerminalWork k t) :=
  (h.saveCursor k.onScreen).same rfl fun _ => rfl

theorem PagesOk.switchTerminalKeypress (h : PagesOk k) (targetTerminal : Nat) :
    PagesOk (switchTerminalKeypress k targetTerminal) := by
  unfold BigChungOS.switchTerminalKeypress
  split
  · exact h
  · refine ⟨h.videoMem, fun u => ?_⟩
    rw [switchTo_records]
    split
    · exact termPage_aligned u
    · exact h.buffer u

theorem PagesOk.sysExecute (h : PagesOk k) (command : Option (List UInt8)) (frame : Frame) :
    PagesOk (sysExecute k command frame).1 := by
  obtain ⟨text, htext⟩ := (sysExecute_sameDevices k command frame).screen
  refine ⟨?_, fun t => ?_⟩
  · rw [htext]
    exact (h.puts text).videoMem
  · obtain ⟨procs, currProcess, hrest⟩ := sysExecute_terminals k command frame t
    rw [hrest]
    exact h.buffer t

theorem PagesOk.sysHalt (h : PagesOk k) (status : UInt8) (frame : Frame) : PagesOk (sysHalt k status frame).1 := by
  have hrel := released_spec k
  have hreleased : PagesOk (released k) := h.same (by rw [hrel.screen]) fun t => by rw [hrel.terminals]
  refine sysHalt_keeps (P := PagesOk) hreleased (fun _ hk => hk.sysExecute _ frame) fun k hk => ?_
  have hspec := haltReturn_spec k status
  have hpop : PagesOk (k.setTerminal k.currTerminal TerminalT.pop) := by
    obtain ⟨procs, currProcess, hrest⟩ := k.curr.pop_rest
    refine hk.setTerminal _ ?_
    rw [← Kernel.curr, hrest]
    exact hk.buffer k.currTerminal
  exact hpop.same (by rw [hspec.screen]; rfl) fun t => by rw [hspec.terminals]; rfl

theorem PagesOk.pitHandler (h : PagesOk k) (frame execFrame : Frame) : PagesOk (pitHandler k frame execFrame).1 := by
  have hsave : PagesOk (pitSave k frame) := by
    obtain ⟨pcbs, heq⟩ := pitSave_eq k frame
    have hpcbs : PagesOk { k with allPcbs := pcbs } := h.same rfl fun _ => rfl
    exact heq ▸ hpcbs.saveCursor k.currTerminal
  have hcurrent : ∀ (k : Kernel) (t : Fin 3) (n : Nat),
      PagesOk k → PagesOk { k with currTerminal := t, pitCount := n } := fun k t n hk => hk.same rfl fun _ => rfl
  refine pitHandler_keeps (P := PagesOk) hsave ?_ (fun _ s hk => hk.puts s) ?_ ?_ ?_
  · exact fun k t hk =>
      hcurrent _ t (k.pitCount + 1) (((hcurrent k t k.pitCount hk).switchTerminalWork t).saveCursor t)
  · exact fun _ hk => hk.sysExecute _ execFrame
  · exact fun k hk => hcurrent _ 0 4 ((hcurrent k 0 k.pitCount hk).switchTerminalWork 0)
  · intro k hk
    -- a tick that returns gives the current terminal its page
    have hpage : 4096 ∣ (if k.currTerminal = k.onScreen then mainVideo else termPage k.currTerminal) := by
      split
      · exact mainVideo_aligned
      · exact termPage_aligned _
    exact (hk.setTerminal (f := fun t =>
      { t with videoBuffer := if k.currTerminal = k.onScreen then mainVideo else termPage k.currTerminal })
      k.currTerminal hpage).same rfl fun _ => rfl

theorem PagesOk.typeText (h : PagesOk k) (scanCode : Nat) (past : UInt8) : PagesOk (typeText k scanCode past).1 :=
  typeText_keeps h scanCode past (fun _ _ _ hk => hk.same rfl fun _ => rfl) fun _ c hk => hk.echo c

theorem PagesOk.keyboardHandler (h : PagesOk k) (scanCode : Nat) (past : UInt8) :
    PagesOk (keyboardHandler k scanCode past).1 :=
  keyboardHandler_keeps h scanCode past (fun _ _ _ hk => hk.same rfl fun _ => rfl) (fun _ c hk => hk.echo c)
    (fun _ hk => hk.erase) (fun _ hk => hk.clear) (fun k hk => hk.setTerminal _ (hk.buffer k.onScreen))
    fun _ n hk => hk.switchTerminalKeypress n

end Invariant

/-! ### What `clear` changes -/

/-- The pages that the display and the terminals have; no other address below the kernel is mapped. -/
def VideoPage (page : Nat) : Prop := page = mainVideo ∨ ∃ t, page = termPage t

/-- `clear` blanks the page on display and leaves the other screens as they are; the page it stores to is mapped. -/
structure ClearsVisible (k : Kernel) : Prop where
  mapped : VideoPage k.screen.videoMem
  main : Blank (clear k).screen.vram mainVideo
  others : ∀ t ≠ k.onScreen, ∀ i < 4096, screenOf (clear k) t i = screenOf k t i

/-- `video_mem` points at a page, and it is the displayed one, or that is the one `clear` copies to, or blank already;
and it is not the page of a terminal off screen, unless that is blank already. -/
structure ClearTarget (k : Kernel) : Prop where
  mapped : VideoPage k.screen.videoMem
  main : k.screen.videoMem = mainVideo ∨ (k.terminals k.onScreen).videoBuffer = mainVideo ∨
    Blank k.screen.vram mainVideo
  others : ∀ t ≠ k.onScreen, k.screen.videoMem = termPage t → Blank k.screen.vram (termPage t)

/-- The buffer of the terminal on screen is not the page of another one. -/
private theorem buffer_ne_termPage {k : Kernel} (h : ScreensOk k) {t : Fin 3} (ht : t ≠ k.onScreen) :
    (k.terminals k.onScreen).videoBuffer ≠ termPage t := by
  have hval : t.val ≠ k.onScreen.val := fun heq => ht (Fin.ext heq)
  rcases h.buffer k.onScreen with hown | ⟨hmain, -⟩
  · rw [hown, termPage_eq, termPage_eq]
    omega
  · rw [hmain, termPage_eq, mainVideo]
    omega

private theorem clearsVisible_iff {k : Kernel} (h : ScreensOk k) (hpages : PagesOk k) :
    ClearsVisible k ↔ ClearTarget k := by
  have hmain : Blank (clear k).screen.vram mainVideo ↔ k.screen.videoMem = mainVideo ∨
      (k.terminals k.onScreen).videoBuffer = mainVideo ∨ Blank k.screen.vram mainVideo := by
    rw [clear_vram]
    exact blank_blit_iff hpages.videoMem (hpages.buffer _) mainVideo_aligned
  have hother : ∀ t ≠ k.onScreen, (∀ i < 4096, screenOf (clear k) t i = screenOf k t i) ↔
      (k.screen.videoMem = termPage t → Blank k.screen.vram (termPage t)) := by
    intro t ht
    have hbase : ∀ k', k'.onScreen = k.onScreen → screenBase k' t = termPage t := fun k' hon => by
      rw [screenBase, hon, if_neg ht]
    unfold screenOf
    rw [hbase k rfl, hbase (clear k) rfl, clear_vram]
    exact blit_same_iff hpages.videoMem (hpages.buffer _) (termPage_aligned t) (buffer_ne_termPage h ht)
  constructor
  · rintro ⟨hmapped, hblank, hsame⟩
    exact ⟨hmapped, hmain.1 hblank, fun t ht => (hother t ht).1 (hsame t ht)⟩
  · rintro ⟨hmapped, hblank, hsame⟩
    exact ⟨hmapped, hmain.2 hblank, fun t ht => (hother t ht).2 (hsame t ht)⟩

/-! ### Steps and runs -/

private theorem cursorStep_pages {k : Kernel} (h : PagesOk k) (e : CursorEvent) : PagesOk (cursorStep k e) := by
  cases e with
  | tick frame execFrame => exact h.pitHandler frame execFrame
  | work targetTerminal =>
    rw [cursorStep]
    split
    · exact h.switchTerminalWork _
    · exact h
  | keypress targetTerminal => exact h.switchTerminalKeypress targetTerminal
  | key scanCode past => exact h.keyboardHandler scanCode past
  | print text => exact h.puts text
  | execute command frame => exact h.sysExecute command frame
  | halt status frame => exact h.sysHalt status frame
  | line => exact h.same rfl fun _ => rfl
  | clear => exact h.clear

/-- While `entry` prints its text the terminals have no buffers yet; `start_terminals` gives them theirs. -/
private theorem startTerminals_pagesOk (b : Boot) : PagesOk (startTerminals (bootKernel b)) := by
  have hzero : PagesOk (zeroKernel b) := ⟨mainVideo_aligned, fun _ => Nat.dvd_zero 4096⟩
  exact ⟨(hzero.clear.puts b.text).videoMem, termPage_aligned⟩

private theorem cursorRun_pagesOk {b : Boot} {events : List CursorEvent} {k : Kernel}
    (hrun : Run (fun k e k' => cursorStep k e = k') (startTerminals (bootKernel b)) events k) : PagesOk k := by
  refine Run.invariant ?_ hrun (startTerminals_pagesOk b)
  rintro k e _ hk rfl
  exact cursorStep_pages hk e

/-- Clearing the screen.  In every state that ticks, prints, keys, switches and calls lead to from `start_terminals`,
`clear` blanks the displayed page and leaves the screens of the terminals off screen alone exactly if `video_mem` points
where it should. -/
theorem clear_visible_iff {b : Boot} {events : List CursorEvent} {k : Kernel}
    (hrun : Run (fun k e k' => cursorStep k e = k') (startTerminals (bootKernel b)) events k) :
    ClearsVisible k ↔ ClearTarget k :=
  clearsVisible_iff (cursorRun_screensOk hrun) (cursorRun_pagesOk hrun)

private theorem keyboardHandler_clears (k : Kernel) (hctrl : k.keyboard.ctrlFlag = 1) (past : UInt8) :
    (keyboardHandler k 0x26 past).1 = clear (typeText k 0x26 past).1 := by
  have hkey : Printable 0x26 := ⟨by decide, by decide⟩
  have hkeeps : (typeText k 0x26 past).1.keyboard.ctrlFlag = 1 := by
    unfold typeText
    split
    · exact hctrl
    · exact hctrl
  rw [keyboardHandler_printable hkey, clearKey, if_pos ⟨rfl, hkeeps⟩]

/-- Ctrl and L run `clear` after they have typed the `l`, which puts `video_mem` where `putc` leaves it. -/
theorem ctrl_l_clears {b : Boot} {events : List CursorEvent} {k : Kernel}
    (hrun : Run (fun k e k' => cursorStep k e = k') (startTerminals (bootKernel b)) events k)
    (hctrl : k.keyboard.ctrlFlag = 1) (past : UInt8) : ∃ k₁, k₁ = (typeText k 0x26 past).1 ∧
      (keyboardHandler k 0x26 past).1 = clear k₁ ∧ (ClearsVisible k₁ ↔ ClearTarget k₁) := by
  have hscreens : ScreensOk (typeText k 0x26 past).1 :=
    typeText_keeps (cursorRun_screensOk hrun) 0x26 past (fun _ _ hflag hk => hk.keyboard hflag) fun _ c hk => hk.echo c
  exact ⟨_, rfl, keyboardHandler_clears k hctrl past,
    clearsVisible_iff hscreens ((cursorRun_pagesOk hrun).typeText 0x26 past)⟩

/-- The first shell can clear its screen. -/
theorem firstShell_clear_visible : ClearsVisible firstShell := by
  have hrun : Run (fun k e k' => cursorStep k e = k') (startTerminals (bootKernel shellBoot))
      ([] ++ [.clear] ++ [.tick frame₀ frame₀]) firstShell := .snoc (.snoc (.nil _) rfl) rfl
  have hvideo : firstShell.screen.videoMem = mainVideo := by decide +kernel
  refine (clear_visible_iff hrun).2 ⟨.inl hvideo, .inl hvideo, fun t _ heq => ?_⟩
  rw [hvideo, termPage_eq, mainVideo] at heq
  omega

/-- After the second tick, which prints on a terminal off screen, `clear` blanks that terminal's screen and leaves the
visible one as it is. -/
theorem second_tick_clears_other :
    let k := cursorStep firstShell (.tick frame₀ frame₀)
    Run (fun k e k' => cursorStep k e = k') (startTerminals (bootKernel shellBoot))
        [.clear, .tick frame₀ frame₀, .tick frame₀ frame₀] k ∧
      k.onScreen = 0 ∧ (clear k).screen.vram mainVideo = 0x54 ∧ screenOf k 1 0 = 0x54 ∧ screenOf (clear k) 1 0 = space ∧
      ¬ClearsVisible k := by
  intro k
  have hrun : Run (fun k e k' => cursorStep k e = k') (startTerminals (bootKernel shellBoot))
      ([] ++ [.clear] ++ [.tick frame₀ frame₀] ++ [.tick frame₀ frame₀]) k := .snoc (.snoc (.snoc (.nil _) rfl) rfl) rfl
  -- evaluated together, so that the ticks run once
  obtain ⟨hshown, hmain, hother, hblanked⟩ : k.onScreen = 0 ∧ (clear k).screen.vram mainVideo = 0x54 ∧
      screenOf k 1 0 = 0x54 ∧ screenOf (clear k) 1 0 = space := by decide +kernel
  refine ⟨hrun, hshown, hmain, hother, hblanked, fun hclears => ?_⟩
  have hblank := hclears.main 0 (by decide)
  rw [Nat.add_zero, hmain] at hblank
  exact absurd hblank (by decide)

end BigChungOS
