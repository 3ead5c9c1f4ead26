import BigChungOS.TerminalSwitch

/-!
# The cursors of the terminals

The cursor of the current terminal is in `screen_x` and `screen_y` of lib.c, that of another one in its record: the
cursors are a bank with `curr_terminal` in charge.  `pit_handler` first saves the live cursor for `curr_terminal`, and a
tick after the fourth does nothing else to the cursors.  But `switch_terminal_work`, which the first four ticks call,
and `switch_terminal_keypress` save it for the terminal that is on screen.  The two are the same terminal, except during
boot: the third tick gives the first terminal the cursor of the second.

So a step keeps the cursors, up to what it prints, exactly if the terminal on screen is the current one, or if the
cursors that it mixes up happen to be equal (`cursor_ownership_iff`).
-/

namespace BigChungOS

open Memory Transition Banking

/-- The cursors as a bank. -/
def cursorBank (k : Kernel) : Bank (Fin 3) (Nat × Nat) :=
  ⟨k.screen.cursor, fun t => ((k.terminals t).screenX, (k.terminals t).screenY), k.currTerminal⟩

/-- The cursor that is saved for terminal `t`. -/
def savedCursor (k : Kernel) (t : Fin 3) : Nat × Nat := ((k.terminals t).screenX, (k.terminals t).screenY)

/-- The cursor of terminal `t`. -/
def cursorOf (k : Kernel) (t : Fin 3) : Nat × Nat := if t = k.currTerminal then k.screen.cursor else savedCursor k t

private theorem cursorBank_get (k : Kernel) : (cursorBank k).get = cursorOf k := rfl

/-- The cursor after a text has been printed. -/
def moved (text : List UInt8) (cursor : Nat × Nat) : Nat × Nat := text.foldl Screen.advance cursor

private theorem moved_append (s t : List UInt8) (cursor : Nat × Nat) :
    moved (s ++ t) cursor = moved t (moved s cursor) :=
  List.foldl_append

/-! ### The operations on the bank -/

section Operations

variable {k k' : Kernel}

private theorem cursorBank_congr (hscreen : k'.screen = k.screen) (hcurr : k'.currTerminal = k.currTerminal)
    (hsaved : ∀ t, savedCursor k' t = savedCursor k t) : cursorBank k' = cursorBank k :=
  Bank.ext (congrArg Screen.cursor hscreen) (funext hsaved) hcurr

private theorem puts_bank (k : Kernel) (s : List UInt8) :
    cursorBank (puts k s) = (cursorBank k).set (moved s k.screen.cursor) := by
  refine Bank.ext (puts_cursor k s) ?_ ?_
  · rw [puts_eq]
    rfl
  · rw [puts_eq]
    rfl

private theorem saveCursor_bank (h : k.screen.InGrid) (t : Fin 3) :
    cursorBank (saveCursor k t) = (cursorBank k).save t := by
  obtain ⟨hx, hy⟩ := h
  refine Bank.ext rfl (funext fun u => ?_) rfl
  by_cases hu : u = t
  · subst hu
    have hcursor : (k.screen.screenX % 256, k.screen.screenY % 256) = k.screen.cursor :=
      Prod.ext (Nat.mod_eq_of_lt (by omega)) (Nat.mod_eq_of_lt (by omega))
    simpa [cursorBank, saveCursor] using hcursor
  · simp [cursorBank, saveCursor, hu]

/-- A terminal is made current, while the live cursor is saved for the one on screen. -/
private theorem switchTerminalWork_load (h : k.screen.InGrid) (t : Fin 3) :
    cursorBank (switchTerminalWork { k with currTerminal := t } t) = ((cursorBank k).save k.onScreen).load t := by
  have hsave : cursorBank (saveCursor { k with currTerminal := t } k.onScreen) =
      (cursorBank { k with currTerminal := t }).save k.onScreen :=
        saveCursor_bank (k := { k with currTerminal := t }) h _
  exact congrArg (Bank.load · t) hsave

private theorem switchTerminalWork_bank (h : k.screen.InGrid) (t : Fin 3) :
    cursorBank (switchTerminalWork k t) = ((cursorBank k).save k.onScreen).fetch t :=
  congrArg (Bank.fetch · t) (saveCursor_bank h k.onScreen)

private theorem switchTo_cursorBank (h : k.screen.InGrid) {t : Fin 3} (ht : t ≠ k.onScreen) :
    cursorBank (switchTo k t) = ((cursorBank k).save k.onScreen).load t := by
  obtain ⟨hx, hy⟩ := h
  refine Bank.ext ?_ (funext fun u => ?_) ?_
  · obtain ⟨hx', hy'⟩ := switchTo_cursor k ht
    rw [Bank.load_live, Bank.save_saved, Function.update_of_ne ht]
    exact Prod.ext hx' hy'
  · simp only [cursorBank, Bank.load_saved, Bank.save_saved, switchTo_records]
    by_cases hu : u = k.onScreen
    · rw [hu, if_pos rfl, Function.update_self]
      exact Prod.ext (Nat.mod_eq_of_lt (by omega)) (Nat.mod_eq_of_lt (by omega))
    · rw [if_neg hu, Function.update_of_ne hu]
  · simp [cursorBank, switchTo, loadCursor, updateScreenAxis]

/-! ### Ticks -/

/-- What `sys_execute` prints. -/
def executeText (k : Kernel) (command : Option (List UInt8)) : List UInt8 :=
  if getFreePcb k = none then asBytes "pid_counter: -1\n" ++ asBytes "MAX Program Count reached \n"
  else match command with
    | none => []
    | some command =>
      match scanWord (skipSpaces command) [] with
      | none => asBytes "Command is too long :(\n"
      | some (_, rest) =>
        match scanWord (skipSpaces rest) [] with
        | none => asBytes "Filename is too long :(\n"
        | some _ => []

private theorem sysExecute_screen (k : Kernel) (command : Option (List UInt8)) (frame : Frame) :
    (sysExecute k command frame).1.screen = (puts k (executeText k command)).screen := by
  have hputs : ∀ (pid : Fin 6) (s : List UInt8),
      (puts (initPcb { k with prevPid := k.pidCounter, pidCounter := pid } pid) s).screen = (puts k s).screen := by
    intro pid s
    rw [puts_screen, puts_screen]
    rfl
  have hfree : getFreePcb { k with prevPid := k.pidCounter } = getFreePcb k := rfl
  have hundo : ∀ k₁, (undoExecute k₁).screen = k₁.screen := fun _ => rfl
  have hclear : ∀ k₁, (undoExecute (clearArgs k₁)).screen = k₁.screen := fun _ => rfl
  unfold sysExecute executeText
  dsimp only
  rw [hfree]
  cases getFreePcb k with
  | none =>
    rw [if_pos rfl, puts_append, puts_screen, puts_screen]
    rfl
  | some pid =>
    rw [if_neg (Option.some_ne_none pid)]
    cases command with
    | none => rfl
    | some command =>
      dsimp only
      cases scanWord (skipSpaces command) [] with
      | none => exact (hundo _).trans (hputs pid _)
      | some w =>
        obtain ⟨filename, rest⟩ := w
        dsimp only
        cases scanWord (skipSpaces rest) [] with
        | none => exact (hclear _).trans (hputs pid _)
        | some w =>
          dsimp only
          have hargs : ((initPcb { k with prevPid := k.pidCounter, pidCounter := pid } pid).setPcb pid fun pcb =>
            { pcb with args := fun i => if i < w.1.length then w.1.getD i 0 else pcb.args i }).screen = k.screen := rfl
          generalize (initPcb { k with prevPid := k.pidCounter, pidCounter := pid } pid).setPcb pid _ = k₁ at hargs ⊢
          split
          · exact (hclear k₁).trans hargs
          · split
            · exact hargs
            · split
              · exact hargs
              · split
                · exact hargs
                · exact hargs

private theorem sysExecute_bank (k : Kernel) (command : Option (List UInt8)) (frame : Frame) :
    cursorBank (sysExecute k command frame).1 = (cursorBank k).set (moved (executeText k command) k.screen.cursor) := by
  rw [← puts_bank]
  refine cursorBank_congr (sysExecute_screen k command frame) ?_ fun t => ?_
  · rw [(sysExecute_sameDevices k command frame).currTerminal, puts_eq]
  · rw [puts_eq, savedCursor, savedCursor]
    obtain ⟨procs, currProcess, hrest⟩ := sysExecute_terminals k command frame t
    rw [hrest]

private theorem pitSave_bank (h : k.screen.InGrid) (frame : Frame) :
    cursorBank (pitSave k frame) = (cursorBank k).save k.currTerminal := by
  obtain ⟨pcbs, heq⟩ := pitSave_eq k frame
  rw [heq]
  exact saveCursor_bank (k := { k with allPcbs := pcbs }) h _

private theorem pitReturn_bank (k : Kernel) : cursorBank (pitReturn k).1 = cursorBank k := by
  refine cursorBank_congr rfl rfl fun t => ?_
  by_cases ht : t = k.currTerminal
  · subst ht
    simp [savedCursor, pitReturn]
  · simp [savedCursor, pitReturn, ht]

/-- A boot tick selects its terminal.  The terminal on screen gets the cursor of the one that was current. -/
private theorem pitSelect_cursors (h : ScreensOk k) (frame : Frame) (t : Fin 3) :
    cursorOf (pitSelect (pitSave k frame) t) = Function.update (cursorOf k) k.onScreen k.screen.cursor := by
  have hsave := (pitSave_quiet k frame).ok h
  have hcurrent := (current_quiet (pitSave k frame) t (pitSave k frame).pitCount).ok hsave
  have hgrid := ((switchTerminalWork_quiet _ t).ok hcurrent).inGrid
  have hload : cursorBank (switchTerminalWork { pitSave k frame with currTerminal := t } t) =
      ((cursorBank (pitSave k frame)).save k.onScreen).load t := switchTerminalWork_load hsave.inGrid t
  have hselect : cursorBank (pitSelect (pitSave k frame) t) =
      (((cursorBank (pitSave k frame)).save k.onScreen).load t).save t := by
    rw [← hload]
    exact saveCursor_bank hgrid t
  have hagain := Bank.get_save_selected (((cursorBank (pitSave k frame)).save k.onScreen).load t)
  rw [← cursorBank_get, hselect, ← cursorBank_get]
  rw [Bank.load_selected] at hagain
  rw [hagain, pitSave_bank h.inGrid]
  exact Bank.get_save_save_load (cursorBank k) k.onScreen t

/-- `printf("Terminal %d\n", pit_count)`. -/
def tickMessage (pitCount : Nat) : List UInt8 := asBytes "Terminal " ++ itoa pitCount 10 ++ asBytes "\n"

/-- The text of a boot tick. -/
def tickText (k : Kernel) : List UInt8 := tickMessage (k.pitCount + 1) ++ executeText k (some (asBytes "shell"))

/-- What a tick prints on terminal `t`. -/
def printed (k : Kernel) (t : Fin 3) : List UInt8 := if k.pitCount = t.val then tickText k else []

private theorem executeText_congr (h : k'.inUse = k.inUse) (command : Option (List UInt8)) :
    executeText k' command = executeText k command := by
  have hfree : getFreePcb k' = getFreePcb k := by
    unfold getFreePcb
    congr 1
    funext p
    exact congrArg Bool.not (congrFun h p)
  unfold executeText
  rw [hfree]

/-- A boot tick selects its terminal and prints on it. -/
private theorem pitHandler_cursors_early (h : ScreensOk k) (hcount : k.pitCount < 3) (frame execFrame : Frame)
    (t : Fin 3) : cursorOf (pitHandler k frame execFrame).1 t =
      moved (printed k t) (Function.update (cursorOf k) k.onScreen k.screen.cursor t) := by
  have hselect := pitSelect_cursors h frame ⟨k.pitCount, hcount⟩
  generalize hk₁ : pitSelect (pitSave k frame) ⟨k.pitCount, hcount⟩ = k₁ at hselect
  have hnext : k₁.pitCount = k.pitCount + 1 := by
    rw [← hk₁]
    simp [pitSelect, pitSave, switchTerminalWork, saveCursor, loadCursor, updateScreenAxis]
  have hboot : pitBoot k frame hcount = puts k₁ (tickMessage (k.pitCount + 1)) := by
    unfold pitBoot
    dsimp only
    rw [hk₁, hnext, tickMessage]
  have hcurr : k₁.currTerminal = ⟨k.pitCount, hcount⟩ := by rw [← hk₁]; rfl
  have hbank : cursorBank (sysExecute (pitBoot k frame hcount) (some (asBytes "shell")) execFrame).1 =
      (cursorBank k₁).set (moved (tickText k) k₁.screen.cursor) := by
    have hmessage : (pitBoot k frame hcount).screen.cursor = moved (tickMessage (k.pitCount + 1)) k₁.screen.cursor := by
      rw [hboot]
      exact puts_cursor k₁ _
    rw [sysExecute_bank, executeText_congr (pitBoot_sameProcesses k frame hcount).inUse, hmessage, ← moved_append,
      hboot, puts_bank]
    rfl
  have hcursor : cursorOf (sysExecute (pitBoot k frame hcount) (some (asBytes "shell")) execFrame).1 t =
      moved (printed k t) (Function.update (cursorOf k) k.onScreen k.screen.cursor t) := by
    -- the tick prints with the cursor it has just loaded
    have hselected : (cursorBank k₁).selected = ⟨k.pitCount, hcount⟩ := hcurr
    have hlive : k₁.screen.cursor = cursorOf k₁ ⟨k.pitCount, hcount⟩ := by
      rw [← hcurr]
      exact (Bank.get_selected (cursorBank k₁)).symm
    rw [← cursorBank_get, hbank, Bank.get_set, cursorBank_get, hselected, hlive, hselect, printed]
    by_cases ht : t = ⟨k.pitCount, hcount⟩
    · rw [ht, Function.update_self, if_pos rfl]
    · rw [Function.update_of_ne ht, if_neg fun heq => ht (Fin.ext heq.symm)]
      rfl
  rw [pitHandler_early hcount]
  generalize sysExecute (pitBoot k frame hcount) (some (asBytes "shell")) execFrame = r at hcursor ⊢
  obtain ⟨k₂, res⟩ := r
  cases res with
  | error => exact (congrArg (fun b => Bank.get b t) (pitReturn_bank k₂)).trans hcursor
  | launched | faulted => exact hcursor

/-- The fourth tick makes the first terminal current. -/
private theorem pitHandler_cursors_fourth (h : ScreensOk k) (hcount : k.pitCount = 3) (frame execFrame : Frame) :
    cursorOf (pitHandler k frame execFrame).1 = Function.update (cursorOf k) k.onScreen k.screen.cursor := by
  have hearly : ¬(pitSave k frame).pitCount < 3 := by
    show ¬k.pitCount < 3
    omega
  have hthree : (pitSave k frame).pitCount = 3 := hcount
  have hload : cursorBank { switchTerminalWork { pitSave k frame with currTerminal := 0 } 0 with pitCount := 4 } =
      ((cursorBank (pitSave k frame)).save k.onScreen).load 0 :=
    switchTerminalWork_load ((pitSave_quiet k frame).ok h).inGrid 0
  unfold pitHandler
  dsimp only
  rw [dif_neg hearly, if_pos hthree, ← cursorBank_get, pitReturn_bank, hload, pitSave_bank h.inGrid]
  exact Bank.get_save_save_load (cursorBank k) k.onScreen 0

/-- Every later tick only saves the cursor of the current terminal. -/
private theorem pitHandler_cursors_late (h : ScreensOk k) (hcount : 3 < k.pitCount) (frame execFrame : Frame) :
    cursorOf (pitHandler k frame execFrame).1 = cursorOf k := by
  have hearly : ¬(pitSave k frame).pitCount < 3 := by
    show ¬k.pitCount < 3
    omega
  have hthree : ¬(pitSave k frame).pitCount = 3 := by
    show ¬k.pitCount = 3
    omega
  unfold pitHandler
  dsimp only
  rw [dif_neg hearly, if_neg hthree, ← cursorBank_get, pitReturn_bank, pitSave_bank h.inGrid]
  exact Bank.get_save_selected (cursorBank k)

end Operations

/-! ### Steps and runs -/

/-- `clear` is the call of `entry`, and `line` stands for what `terminal_read` does to the typed line. -/
inductive CursorEvent
  | tick (frame execFrame : Frame)
  | work (targetTerminal : Nat)
  | keypress (targetTerminal : Nat)
  | key (scanCode : Nat) (past : UInt8)
  | print (text : List UInt8)
  | execute (command : Option (List UInt8)) (frame : Frame)
  | halt (status : UInt8) (frame : Frame)
  | line (keyboardBuffer : Int → UInt8)
  | clear

/-- The state after an event.  `switch_terminal_work` returns at once if there is no such terminal. -/
def cursorStep (k : Kernel) : CursorEvent → Kernel
  | .tick frame execFrame => (pitHandler k frame execFrame).1
  | .work targetTerminal => if h : targetTerminal < 3 then switchTerminalWork k ⟨targetTerminal, h⟩ else k
  | .keypress targetTerminal => switchTerminalKeypress k targetTerminal
  | .key scanCode past => (keyboardHandler k scanCode past).1
  | .print text => puts k text
  | .execute command frame => (sysExecute k command frame).1
  | .halt status frame => (sysHalt k status frame).1
  | .line keyboardBuffer => { k with keyboard := { k.keyboard with keyboardBuffer := keyboardBuffer } }
  | .clear => clear k

/-- A tick, and a switch of either kind, moves the cursors only by what it prints. -/
def CursorsKept (k : Kernel) : CursorEvent → Kernel → Prop
  | .tick _ _, k' => ∀ t, cursorOf k' t = moved (printed k t) (cursorOf k t)
  | .work _, k' | .keypress _, k' => ∀ t, cursorOf k' t = cursorOf k t
  | .key _ _, _ | .print _, _ | .execute _ _, _ | .halt _ _, _ | .line _, _ | .clear, _ => True

/-- The cursor of terminal `t` may be taken for the live one: it is, or it is equal to it. -/
def AsLive (k : Kernel) (t : Fin 3) : Prop := t = k.currTerminal ∨ savedCursor k t = k.screen.cursor

/-- A step confuses no cursors: where it takes the terminal on screen for the current one, it is, or the cursors it
mixes up are equal, or what it prints brings the two to the same place. -/
def SavesOwner (k : Kernel) : CursorEvent → Prop
  | .tick _ _ => 3 < k.pitCount ∨ AsLive k k.onScreen ∨
      (k.pitCount = k.onScreen.val ∧ moved (tickText k) k.screen.cursor = moved (tickText k) (savedCursor k k.onScreen))
  | .work targetTerminal => ∀ h : targetTerminal < 3, AsLive k k.onScreen ∧
      (⟨targetTerminal, h⟩ = k.onScreen ∨ savedCursor k ⟨targetTerminal, h⟩ = k.screen.cursor)
  | .keypress targetTerminal => targetTerminal = k.onScreen.val ∨ 3 ≤ targetTerminal ∨ k.onScreen = k.currTerminal ∨
      (savedCursor k k.onScreen = k.screen.cursor ∧ savedCursor k k.currTerminal = k.screen.cursor)
  | .key _ _ | .print _ | .execute _ _ | .halt _ _ | .line _ | .clear => True

section Step

variable {k : Kernel}

private theorem cursorStep_screens (h : ScreensOk k) (e : CursorEvent) : ScreensOk (cursorStep k e) := by
  cases e with
  | tick frame execFrame => exact (pitHandler_screens h frame execFrame).1
  | work targetTerminal =>
    rw [cursorStep]
    split
    · exact (switchTerminalWork_quiet k _).ok h
    · exact h
  | keypress targetTerminal => exact (switchTerminalKeypress_screens h targetTerminal).1
  | key scanCode past => exact keyboardHandler_screens h scanCode past
  | print text => exact h.puts text
  | execute command frame => exact sysExecute_screens h command frame
  | halt status frame => exact sysHalt_screens h status frame
  | line keyboardBuffer => exact h.keyboard rfl
  | clear => exact { h with inGrid := Screen.clear_inGrid _ _ }

/-- The cursor of the terminal on screen is all that can go wrong. -/
private theorem update_kept_iff {text : Fin 3 → List UInt8} {t : Fin 3} {cursors : Fin 3 → Nat × Nat}
    {cursor : Nat × Nat} :
    (∀ u, moved (text u) (Function.update cursors t cursor u) = moved (text u) (cursors u)) ↔
      moved (text t) cursor = moved (text t) (cursors t) := by
  constructor
  · intro hall
    simpa using hall t
  · intro ht u
    by_cases hu : u = t
    · rw [hu, Function.update_self, ht]
    · rw [Function.update_of_ne hu]

/-- What one of the first four ticks does to the cursors. -/
private theorem pitHandler_cursors_boot (h : ScreensOk k) (hcount : k.pitCount ≤ 3) (frame execFrame : Frame)
    (t : Fin 3) : cursorOf (pitHandler k frame execFrame).1 t =
      moved (printed k t) (Function.update (cursorOf k) k.onScreen k.screen.cursor t) := by
  by_cases hearly : k.pitCount < 3
  · exact pitHandler_cursors_early h hearly frame execFrame t
  have hthree : k.pitCount = 3 := by omega
  have hsilent : k.pitCount ≠ t.val := by omega
  rw [pitHandler_cursors_fourth h hthree, printed, if_neg hsilent]
  rfl

private theorem tick_kept_iff (h : ScreensOk k) (frame execFrame : Frame) :
    CursorsKept k (.tick frame execFrame) (pitHandler k frame execFrame).1 ↔ SavesOwner k (.tick frame execFrame) := by
  by_cases hlate : 3 < k.pitCount
  · refine iff_of_true (fun t => ?_) (.inl hlate)
    have hsilent : k.pitCount ≠ t.val := by omega
    rw [pitHandler_cursors_late h hlate, printed, if_neg hsilent]
    rfl
  -- the live cursor is saved for the terminal on screen, whichever is current
  have hkept : CursorsKept k (.tick frame execFrame) (pitHandler k frame execFrame).1 ↔
      moved (printed k k.onScreen) k.screen.cursor = moved (printed k k.onScreen) (cursorOf k k.onScreen) := by
    rw [← update_kept_iff]
    exact forall_congr' fun t => by rw [pitHandler_cursors_boot h (by omega)]
  rw [hkept]
  by_cases hcurr : k.onScreen = k.currTerminal
  · rw [cursorOf, if_pos hcurr]
    exact iff_of_true rfl (.inr (.inl (.inl hcurr)))
  rw [cursorOf, if_neg hcurr]
  constructor
  · intro heq
    by_cases hprints : k.pitCount = k.onScreen.val
    · rw [printed, if_pos hprints] at heq
      exact .inr (.inr ⟨hprints, heq⟩)
    · rw [printed, if_neg hprints] at heq
      exact .inr (.inl (.inr heq.symm))
  · rintro (hlate' | (hsame | hsaved) | ⟨hprints, heq⟩)
    · exact absurd hlate' hlate
    · exact absurd hsame hcurr
    · rw [hsaved]
    · rw [printed, if_pos hprints, heq]

private theorem work_kept_iff (h : ScreensOk k) (targetTerminal : Nat) :
    CursorsKept k (.work targetTerminal) (cursorStep k (.work targetTerminal)) ↔
      SavesOwner k (.work targetTerminal) := by
  by_cases htarget : targetTerminal < 3
  · have hstep : cursorStep k (.work targetTerminal) = switchTerminalWork k ⟨targetTerminal, htarget⟩ := dif_pos htarget
    -- in the bank: the register on screen is saved to, and another one fetched
    have hkept : CursorsKept k (.work targetTerminal) (switchTerminalWork k ⟨targetTerminal, htarget⟩) ↔
        (((cursorBank k).save k.onScreen).fetch ⟨targetTerminal, htarget⟩).get = (cursorBank k).get := by
      rw [← switchTerminalWork_bank h.inGrid]
      exact funext_iff.symm
    rw [hstep, hkept, Bank.get_save_fetch_iff]
    exact ⟨fun hc _ => ⟨hc.2, hc.1⟩, fun hc => ⟨(hc htarget).2, (hc htarget).1⟩⟩
  · have hstep : cursorStep k (.work targetTerminal) = k := dif_neg htarget
    rw [hstep]
    exact iff_of_true (fun _ => rfl) fun hlt => absurd hlt htarget

private theorem keypress_kept_iff (h : ScreensOk k) (targetTerminal : Nat) :
    CursorsKept k (.keypress targetTerminal) (switchTerminalKeypress k targetTerminal) ↔
      SavesOwner k (.keypress targetTerminal) := by
  unfold switchTerminalKeypress
  split
  · next hstay => exact iff_of_true (fun _ => rfl) (hstay.imp_right .inl)
  · next hmove =>
    have hne : (⟨targetTerminal, by omega⟩ : Fin 3) ≠ k.onScreen := fun heq => hmove (.inl (congrArg Fin.val heq))
    -- in the bank: the register on screen is saved to, and another one loaded
    have hkept : CursorsKept k (.keypress targetTerminal) (switchTo k ⟨targetTerminal, by omega⟩) ↔
        (((cursorBank k).save k.onScreen).load ⟨targetTerminal, by omega⟩).get = (cursorBank k).get := by
      rw [← switchTo_cursorBank h.inGrid hne]
      exact funext_iff.symm
    rw [hkept, Bank.get_save_load_iff]
    constructor
    · exact fun hc => .inr (.inr hc)
    · rintro (hsame | hnone | hc)
      · exact absurd (.inl hsame) hmove
      · exact absurd (.inr hnone) hmove
      · exact hc

/-- A step keeps the cursors exactly if it confuses none. -/
private theorem cursorStep_kept_iff (h : ScreensOk k) (e : CursorEvent) :
    CursorsKept k e (cursorStep k e) ↔ SavesOwner k e := by
  cases e with
  | tick frame execFrame => exact tick_kept_iff h frame execFrame
  | work targetTerminal => exact work_kept_iff h targetTerminal
  | keypress targetTerminal => exact keypress_kept_iff h targetTerminal
  | key | print | execute | halt | line | clear => exact Iff.rfl

end Step

/-- The screens stay apart in every run from `start_terminals`. -/
theorem cursorRun_screensOk {b : Boot} {events : List CursorEvent} {k : Kernel}
    (hrun : Run (fun k e k' => cursorStep k e = k') (startTerminals (bootKernel b)) events k) : ScreensOk k := by
  refine Run.invariant ?_ hrun (startTerminals_boot b)
  rintro k e _ hk rfl
  exact cursorStep_screens hk e

/-- Cursor ownership.  In every state that a run from `start_terminals` reaches, a tick, a `switch_terminal_work` or a
`switch_terminal_keypress` leaves every terminal its cursor, but for what the step prints on it, exactly if it confuses
no cursors. -/
theorem cursor_ownership_iff {b : Boot} {events : List CursorEvent} {k : Kernel}
    (hrun : Run (fun k e k' => cursorStep k e = k') (startTerminals (bootKernel b)) events k) (e : CursorEvent) :
    CursorsKept k e (cursorStep k e) ↔ SavesOwner k e :=
  cursorStep_kept_iff (cursorRun_screensOk hrun) e

/-- The machine with one program; its first shell prints a character. -/
def printingShell : Kernel := cursorStep (cursorStep (entry shellBoot) (.tick frame₀ frame₀)) (.print (asBytes "x"))

/-- The second tick keeps all cursors. -/
theorem printingShell_cursor_ownership :
    CursorsKept printingShell (.tick frame₀ frame₀) (cursorStep printingShell (.tick frame₀ frame₀)) ↔
      SavesOwner printingShell (.tick frame₀ frame₀) := by
  have hrun : Run (fun k e k' => cursorStep k e = k') (startTerminals (bootKernel shellBoot))
      ([] ++ [.clear] ++ [.tick frame₀ frame₀] ++ [.print (asBytes "x")]) printingShell :=
    .snoc (.snoc (.snoc (.nil _) rfl) rfl) rfl
  exact cursor_ownership_iff hrun (.tick frame₀ frame₀)

/-- The third tick gives the terminal of the first shell the cursor of the second. -/
theorem third_tick_takes_cursor :
    let k := cursorStep printingShell (.tick frame₀ frame₀)
    let k' := cursorStep k (.tick frame₀ frame₀)
    Run (fun k e k' => cursorStep k e = k') (startTerminals (bootKernel shellBoot))
        [.clear, .tick frame₀ frame₀, .print (asBytes "x"), .tick frame₀ frame₀] k ∧
      cursorOf k 0 = (1, 1) ∧ cursorOf k' 0 = (0, 1) ∧ printed k 0 = [] ∧ ¬CursorsKept k (.tick frame₀ frame₀) k' := by
  intro k k'
  have hrun : Run (fun k e k' => cursorStep k e = k') (startTerminals (bootKernel shellBoot))
      ([] ++ [.clear] ++ [.tick frame₀ frame₀] ++ [.print (asBytes "x")] ++ [.tick frame₀ frame₀]) k :=
    .snoc (.snoc (.snoc (.snoc (.nil _) rfl) rfl) rfl) rfl
  have hbefore : cursorOf k 0 = (1, 1) := by decide +kernel
  have hafter : cursorOf k' 0 = (0, 1) := by decide +kernel
  have hsilent : printed k 0 = [] := by decide +kernel
  refine ⟨hrun, hbefore, hafter, hsilent, fun hkept => ?_⟩
  have hfirst := hkept 0
  rw [hafter, hsilent, hbefore] at hfirst
  exact absurd hfirst (by decide)

end BigChungOS
