import BigChungOS.Lib.Banks
import BigChungOS.ScreenIsolation

/-!
# Switching terminals keeps every terminal's state

A terminal is its screen, its cursor and its typed line.  Those of the terminal on screen are the displayed page and the
globals of lib.c and keyboard.c; the others are in the terminal's own page and record.  So the three terminals are a
bank of registers, and `switch_terminal_keypress` is its switch (`switchTo_bank`): however often the screen is switched,
every terminal keeps its state, and the last one switched to has its state live (`terminal_switch_preserves`).
-/

namespace BigChungOS

open Memory Transition Banking

/-- The state of a terminal: a page, a cursor, the 128 characters of a line buffer and the index into it. -/
@[ext] structure TerminalState where
  page : Fin 4096 → UInt8
  cursor : Nat × Nat
  line : Fin 128 → UInt8
  idx : Int

/-- The displayed page and the globals. -/
def liveState (k : Kernel) : TerminalState where
  page i := k.screen.vram (mainVideo + i)
  cursor := (k.screen.screenX, k.screen.screenY)
  line i := k.keyboard.keyboardBuffer i
  idx := k.keyboard.kbIdx

/-- The page and the record of terminal `t`. -/
def savedState (k : Kernel) (t : Fin 3) : TerminalState where
  page i := k.screen.vram (termPage t + i)
  cursor := ((k.terminals t).screenX, (k.terminals t).screenY)
  line i := (k.terminals t).bufKb i
  idx := (k.terminals t).currIdx

/-- The state of terminal `t`. -/
def terminalState (k : Kernel) (t : Fin 3) : TerminalState := if t = k.onScreen then liveState k else savedState k t

/-- The three terminals as a bank. -/
def terminalBank (k : Kernel) : Bank (Fin 3) TerminalState := ⟨liveState k, savedState k, k.onScreen⟩

private theorem terminalBank_get (k : Kernel) : (terminalBank k).get = terminalState k := rfl

/-- The fields `screen_x`, `screen_y` and `curr_idx` are of type `uint8_t`. -/
def ByteFields (r : TerminalT) : Prop := r.screenX < 256 ∧ r.screenY < 256 ∧ r.currIdx < 256

/-- The live cursor and index fit in these fields. -/
structure FitsFields (k : Kernel) : Prop where
  cursor : k.screen.screenX < 256 ∧ k.screen.screenY < 256
  idx : 0 ≤ k.keyboard.kbIdx ∧ k.keyboard.kbIdx < 256
  saved : ∀ t, ByteFields (k.terminals t)

section Switch

variable {k : Kernel} {t : Fin 3}

theorem switchTo_keyboard (k : Kernel) (ht : t ≠ k.onScreen) :
    (switchTo k t).keyboard.keyboardBuffer = copyKb k.keyboard.keyboardBuffer (k.terminals t).bufKb ∧
      (switchTo k t).keyboard.kbIdx = (k.terminals t).currIdx := by
  simp [switchTo, saveCursor, loadCursor, updateScreenAxis, ht]

private theorem copyKb_line (dest src : Int → UInt8) (i : Fin 128) : copyKb dest src i = src i := by
  have hi := i.isLt
  exact if_pos ⟨by omega, by omega⟩

/-- The screens after a switch, with the page of the new terminal still in its place. -/
private theorem switchTo_pages (k : Kernel) (ht : t ≠ k.onScreen) (i : Fin 4096) :
    (switchTo k t).screen.vram (mainVideo + i) = k.screen.vram (termPage t + i) ∧
      ∀ u, (switchTo k t).screen.vram (termPage u + i) =
        k.screen.vram ((if u = k.onScreen then mainVideo else termPage u) + i) := by
  have hshown := switchTo_screenOf k ht t i.isLt
  rw [screenOf, screenOf, screenBase, screenBase, (switchTo_screen k t).2.1, if_pos rfl, if_neg ht] at hshown
  refine ⟨hshown, fun u => ?_⟩
  by_cases hu : u = t
  · -- the page of the new terminal has been copied from only
    obtain ⟨hvram, -⟩ := switchTo_screen k t
    have hpage := termPage_eq k.onScreen
    have hpage' := termPage_eq t
    have hmain : mainVideo = 0xB8000 := rfl
    have hval : t.val ≠ k.onScreen.val := fun heq => ht (Fin.ext heq)
    have hi := i.isLt
    rw [hu, if_neg ht, hvram, sameOutside_blit _ _ _ _ _ (by omega), sameOutside_blit _ _ _ _ _ (by omega)]
  · have hscreen := switchTo_screenOf k ht u i.isLt
    rwa [screenOf, screenOf, screenBase, screenBase, (switchTo_screen k t).2.1, if_neg hu] at hscreen

/-- `switch_terminal_keypress` switches the bank. -/
theorem switchTo_bank (h : FitsFields k) (ht : t ≠ k.onScreen) :
    terminalBank (switchTo k t) = (terminalBank k).switch t := by
  have hlive : liveState (switchTo k t) = savedState k t := by
    obtain ⟨hbuffer, hidx⟩ := switchTo_keyboard k ht
    obtain ⟨hx, hy⟩ := switchTo_cursor k ht
    refine TerminalState.ext (funext fun i => (switchTo_pages k ht i).1) ?_ (funext fun i => ?_) hidx
    · rw [liveState, hx, hy]
      rfl
    · simp only [liveState, savedState, hbuffer, copyKb_line]
  have hsaved : ∀ u, savedState (switchTo k t) u = if u = k.onScreen then liveState k else savedState k u := by
    intro u
    obtain ⟨hx, hy⟩ := h.cursor
    obtain ⟨hidx, hidx'⟩ := h.idx
    have hpage := fun i => (switchTo_pages k ht i).2 u
    have hrecord := switchTo_records k t u
    by_cases hu : u = k.onScreen
    · rw [if_pos hu] at hrecord ⊢
      simp only [if_pos hu] at hpage
      refine TerminalState.ext (funext hpage) ?_ (funext fun i => ?_) ?_
      · simp only [savedState, hrecord, liveState, Nat.mod_eq_of_lt hx, Nat.mod_eq_of_lt hy]
      · simp only [savedState, liveState, hrecord, copyKb_line]
      · simp only [savedState, hrecord, liveState]
        omega
    · rw [if_neg hu] at hrecord ⊢
      simp only [if_neg hu] at hpage
      refine TerminalState.ext (funext hpage) ?_ (funext fun i => ?_) ?_ <;> simp only [savedState, hrecord]
  refine Bank.ext ?_ (funext fun u => ?_) (switchTo_screen k t).2.1
  · have hne : t ≠ (terminalBank k).selected := ht
    rw [Bank.switch, Bank.load_live, Bank.save_saved, Function.update_of_ne hne]
    exact hlive
  · rw [Bank.switch, Bank.load_saved, Bank.saved_save_selected]
    exact hsaved u

theorem FitsFields.switchTo (h : FitsFields k) (ht : t ≠ k.onScreen) : FitsFields (switchTo k t) where
  cursor := by
    obtain ⟨hx, hy⟩ := switchTo_cursor k ht
    rw [hx, hy]
    exact ⟨(h.saved t).1, (h.saved t).2.1⟩
  idx := by
    have hbound := (h.saved t).2.2
    rw [(switchTo_keyboard k ht).2]
    omega
  saved u := by
    obtain ⟨hx, hy, hidx⟩ := h.saved u
    rw [switchTo_records k t u]
    split
    · exact ⟨Nat.mod_lt _ (by decide), Nat.mod_lt _ (by decide), by dsimp only; omega⟩
    · exact ⟨hx, hy, hidx⟩

end Switch

/-! ### Runs -/

/-- The terminal a key asks for, if there is one. -/
def validTarget (targetTerminal : Nat) : List (Fin 3) := if h : targetTerminal < 3 then [⟨targetTerminal, h⟩] else []

/-- A bank that holds the terminals' states. -/
def Holding (k : Kernel) (b : Bank (Fin 3) TerminalState) : Prop :=
  FitsFields k ∧ terminalState k = b.get ∧ k.onScreen = b.selected

/-- A key press is a switch of the bank; one that asks for the terminal on screen changes nothing. -/
private theorem switchTerminalKeypress_switch {k : Kernel} {b : Bank (Fin 3) TerminalState} {targetTerminal : Nat}
    (h : Holding k b) :
    ∃ b', Run (fun b j b' => b.switch j = b') b (validTarget targetTerminal) b' ∧
      Holding (switchTerminalKeypress k targetTerminal) b' := by
  obtain ⟨hfits, hget, hon⟩ := h
  unfold switchTerminalKeypress validTarget
  by_cases htarget : targetTerminal < 3
  · rw [dif_pos htarget]
    -- the kernel returns at once where the bank switches to the selected register
    refine ⟨b.switch ⟨targetTerminal, htarget⟩, Run.single rfl, ?_⟩
    split
    · next hstay =>
      have hsame : (⟨targetTerminal, htarget⟩ : Fin 3) = k.onScreen := Fin.ext (hstay.resolve_right (by omega))
      exact ⟨hfits, by rw [Bank.get_switch, hget], hsame.symm⟩
    · next hmove =>
      have hne : (⟨targetTerminal, htarget⟩ : Fin 3) ≠ k.onScreen := fun heq => hmove (.inl (congrArg Fin.val heq))
      have hbank := switchTo_bank hfits hne
      refine ⟨hfits.switchTo hne, ?_, (switchTo_screen k _).2.1⟩
      rw [← terminalBank_get, hbank, Bank.get_switch, Bank.get_switch, terminalBank_get, hget]
  · rw [dif_neg htarget, dif_pos (.inr (by omega))]
    exact ⟨b, Run.nil b, hfits, hget, hon⟩

/-- Terminal switches keep every terminal's state.  From any state with the cursor in the grid and the index in the line
buffer, any sequence of `switch_terminal_keypress` calls leaves the state of each terminal as it is, shows the last
terminal asked for, and leaves its page, cursor and line live. -/
theorem terminal_switch_preserves {k k' : Kernel} {targets : List Nat} (hgrid : k.screen.InGrid)
    (hidx : 0 ≤ k.keyboard.kbIdx ∧ k.keyboard.kbIdx ≤ 127) (hsaved : ∀ t, ByteFields (k.terminals t))
    (hrun : Run (fun k targetTerminal k' => switchTerminalKeypress k targetTerminal = k') k targets k') :
    (∀ t, terminalState k' t = terminalState k t) ∧
      k'.onScreen = (targets.flatMap validTarget).getLastD k.onScreen ∧
      liveState k' = terminalState k ((targets.flatMap validTarget).getLastD k.onScreen) := by
  obtain ⟨hx, hy⟩ := hgrid
  have hfits : FitsFields k := ⟨⟨by omega, by omega⟩, ⟨hidx.1, by omega⟩, hsaved⟩
  have hstart : Holding k (terminalBank k) := ⟨hfits, (terminalBank_get k).symm, rfl⟩
  obtain ⟨b, hswitches, -, hget, hon⟩ := Run.simulate
    (fun _ _ _ _ h hstep => hstep ▸ switchTerminalKeypress_switch h) hrun hstart
  obtain ⟨hkept, hlast, -⟩ := Bank.run_switch hswitches
  have hstate : terminalState k' = terminalState k := by rw [hget, hkept, terminalBank_get]
  have hshown : k'.onScreen = (targets.flatMap validTarget).getLastD k.onScreen := by
    rw [hon, hlast]
    rfl
  refine ⟨congrFun hstate, hshown, ?_⟩
  rw [← hstate, ← hshown, terminalState, if_pos rfl]

/-- The first shell's terminal is left and found again. -/
theorem firstShell_switch_preserves :
    let k := switchTerminalKeypress (switchTerminalKeypress (switchTerminalKeypress firstShell 2) 7) 0
    (∀ t, terminalState k t = terminalState firstShell t) ∧ k.onScreen = 0 ∧
      liveState k = terminalState firstShell 0 := by
  have hsaved : ∀ t, ByteFields (firstShell.terminals t) := by
    intro t
    fin_cases t <;> exact ⟨by decide +kernel, by decide +kernel, by decide +kernel⟩
  have hrun : Run (fun k targetTerminal k' => switchTerminalKeypress k targetTerminal = k') firstShell
      ([] ++ [2] ++ [7] ++ [0]) _ := .snoc (.snoc (.snoc (.nil _) rfl) rfl) rfl
  exact terminal_switch_preserves ⟨by decide +kernel, by decide +kernel⟩
    ⟨by decide +kernel, by decide +kernel⟩ hsaved hrun

end BigChungOS
