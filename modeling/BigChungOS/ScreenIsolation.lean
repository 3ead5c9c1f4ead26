import BigChungOS.Keyboard
import BigChungOS.Lib.Runs
import BigChungOS.Timer

/-!
# Every terminal has its own screen

The screen of a terminal is the displayed page while the terminal is on screen, and its own page otherwise.  The
printing functions reach it through `video_mem` and `video_buffer`, which the timer and the terminal switch move
around; what keeps the screens apart is that the `video_buffer` of a terminal is its own page, or the displayed one
while the terminal is on screen (`ScreensOk`).  With this, each step of the timer, the tasks and the keyboard changes
only the screen it is meant for (`screen_isolation`).
-/

namespace BigChungOS

open Memory Transition

/-- The page that shows the screen of terminal `t`. -/
def screenBase (k : Kernel) (t : Fin 3) : Nat := if t = k.onScreen then mainVideo else termPage t

/-- The byte at position `i` of the screen of terminal `t`. -/
def screenOf (k : Kernel) (t : Fin 3) (i : Nat) : UInt8 := k.screen.vram (screenBase k t + i)

/-- The pages of different terminals do not meet. -/
private theorem screenBase_disjoint (k : Kernel) {t u : Fin 3} (h : u ≠ t) :
    screenBase k u + 4096 ≤ screenBase k t ∨ screenBase k t + 4096 ≤ screenBase k u := by
  have hval : u.val ≠ t.val := fun heq => h (Fin.ext heq)
  unfold screenBase
  rw [termPage_eq, termPage_eq]
  unfold mainVideo
  split_ifs with hu ht
  · exact absurd (hu.trans ht.symm) h
  · omega
  · omega
  · omega

/-- From `k` to `k'`, at most the screen of terminal `t` has changed. -/
structure OnlyScreen (k k' : Kernel) (t : Fin 3) : Prop where
  stores : SameOutside k.screen.vram k'.screen.vram (screenBase k t) 4096
  others : ∀ u ≠ t, ∀ i < 4096, screenOf k' u i = screenOf k u i

theorem onlyScreen_of_stores {k k' : Kernel} {t : Fin 3} (hon : k'.onScreen = k.onScreen)
    (h : SameOutside k.screen.vram k'.screen.vram (screenBase k t) 4096) : OnlyScreen k k' t where
  stores := h
  others u hu i hi := by
    have hbase : screenBase k' u = screenBase k u := by rw [screenBase, hon, screenBase]
    have hdisj := screenBase_disjoint k hu
    rw [screenOf, screenOf, hbase]
    exact h _ (by omega)

/-! ### The invariant -/

/-- The cursor of a terminal is inside the grid. -/
def CursorOk (t : TerminalT) : Prop := t.screenX < 80 ∧ t.screenY < 25

/-- The video buffer of a terminal is its own page, or the displayed one while it is on screen. -/
def BufferOk (onScreen t : Fin 3) (r : TerminalT) : Prop :=
  r.videoBuffer = termPage t ∨ (r.videoBuffer = mainVideo ∧ t = onScreen)

/-- The cursors are in the grid, the video buffers are right, and no key is being echoed. -/
structure ScreensOk (k : Kernel) : Prop where
  inGrid : k.screen.InGrid
  cursor : ∀ t, CursorOk (k.terminals t)
  buffer : ∀ t, BufferOk k.onScreen t (k.terminals t)
  noEcho : k.keyboard.keypressToVidFlag = false

section Invariant

variable {k k' : Kernel}

theorem ScreensOk.saveCursor (h : ScreensOk k) (t : Fin 3) : ScreensOk (saveCursor k t) where
  inGrid := h.inGrid
  cursor u := by
    obtain ⟨hx, hy⟩ := h.inGrid
    by_cases hu : u = t
    · subst hu
      simp only [BigChungOS.saveCursor, setTerminal_terminals, Function.update_self, CursorOk]
      omega
    · simpa [BigChungOS.saveCursor, hu] using h.cursor u
  buffer u := by
    by_cases hu : u = t
    · subst hu
      simpa [BigChungOS.saveCursor, BufferOk] using h.buffer u
    · simpa [BigChungOS.saveCursor, hu] using h.buffer u
  noEcho := h.noEcho

theorem ScreensOk.loadCursor (h : ScreensOk k) (t : Fin 3) : ScreensOk (loadCursor k t) where
  inGrid := h.cursor t
  cursor := h.cursor
  buffer := h.buffer
  noEcho := h.noEcho

theorem ScreensOk.puts (h : ScreensOk k) (s : List UInt8) : ScreensOk (puts k s) := by
  have hgrid := puts_inGrid h.inGrid s
  rw [puts_eq]
  exact { h with inGrid := hgrid }

/-- Stores to other parts of the kernel. -/
theorem ScreensOk.same (h : ScreensOk k) (hscreen : k'.screen = k.screen) (hkb : k'.keyboard = k.keyboard)
    (hon : k'.onScreen = k.onScreen) (hterm : ∀ t, (k'.terminals t).screenX = (k.terminals t).screenX ∧
      (k'.terminals t).screenY = (k.terminals t).screenY ∧
      (k'.terminals t).videoBuffer = (k.terminals t).videoBuffer) : ScreensOk k' where
  inGrid := by rw [hscreen]; exact h.inGrid
  cursor t := by
    obtain ⟨hx, hy, -⟩ := hterm t
    rw [CursorOk, hx, hy]
    exact h.cursor t
  buffer t := by
    obtain ⟨-, -, hbuf⟩ := hterm t
    rw [BufferOk, hbuf, hon]
    exact h.buffer t
  noEcho := by rw [hkb]; exact h.noEcho

/-- The page the current task prints to is its own screen. -/
private theorem ScreensOk.target_curr (h : ScreensOk k) :
    Screen.target k.curr.videoBuffer k.toMain = screenBase k k.currTerminal := by
  unfold Screen.target screenBase Kernel.toMain
  rw [h.noEcho, Bool.or_false]
  by_cases hcurr : k.currTerminal = k.onScreen
  · simp [hcurr]
  · have hne : k.onScreen ≠ k.currTerminal := fun heq => hcurr heq.symm
    simp only [hne, hcurr, decide_false, Bool.false_eq_true, if_false]
    rcases h.buffer k.currTerminal with hbuf | ⟨-, hon⟩
    · exact hbuf
    · exact absurd hon hcurr

/-! ### Printing, echoing, erasing -/

theorem puts_onlyScreen (h : ScreensOk k) (s : List UInt8) : OnlyScreen k (puts k s) k.currTerminal := by
  refine onlyScreen_of_stores (by rw [puts_eq]) ?_
  rw [← h.target_curr]
  exact puts_sameOutside h.inGrid s

/-- An echo goes to the terminal on the screen. -/
private theorem target_echo (k : Kernel) (vb : Nat) :
    Screen.target vb ({ k with keyboard := { k.keyboard with keypressToVidFlag := true } }).toMain =
      screenBase k k.onScreen := by
  simp [Screen.target, Kernel.toMain, screenBase]

private theorem echo_onlyScreen (h : ScreensOk k) (c : UInt8) : OnlyScreen k (echo k c) k.onScreen := by
  refine onlyScreen_of_stores rfl ?_
  rw [← target_echo k k.curr.videoBuffer]
  exact Screen.inPage (Screen.putc_sameOutside h.inGrid _ _ c)

private theorem erase_onlyScreen (h : ScreensOk k) : OnlyScreen k (erase k) k.onScreen := by
  refine onlyScreen_of_stores rfl ?_
  rw [← target_echo k (k.terminals k.onScreen).videoBuffer]
  exact Screen.inPage (Screen.rmC_sameOutside h.inGrid _ _ _)

theorem ScreensOk.echo (h : ScreensOk k) (c : UInt8) : ScreensOk (echo k c) where
  inGrid := Screen.putc_inGrid h.inGrid _ _ c
  cursor := h.cursor
  buffer := h.buffer
  noEcho := rfl

theorem ScreensOk.erase (h : ScreensOk k) : ScreensOk (erase k) where
  inGrid := Screen.rmC_inGrid h.inGrid _ _ _
  cursor := h.cursor
  buffer := h.buffer
  noEcho := rfl

/-! ### Switching terminals -/

theorem switchTo_screen (k : Kernel) (t : Fin 3) :
    (switchTo k t).screen.vram =
        blit (blit k.screen.vram (termPage k.onScreen) mainVideo 4096) mainVideo (termPage t) 4096 ∧
      (switchTo k t).onScreen = t ∧
      (switchTo k t).keyboard.keypressToVidFlag = k.keyboard.keypressToVidFlag := by
  simp [switchTo, saveCursor, loadCursor, updateScreenAxis]

theorem switchTo_cursor (k : Kernel) {t : Fin 3} (ht : t ≠ k.onScreen) :
    (switchTo k t).screen.screenX = (k.terminals t).screenX ∧
      (switchTo k t).screen.screenY = (k.terminals t).screenY := by
  simp [switchTo, saveCursor, loadCursor, updateScreenAxis, ht]

/-- What a switch saves in the record of the terminal that was on screen, and nowhere else. -/
theorem switchTo_records (k : Kernel) (t u : Fin 3) :
    ((switchTo k t).terminals u) = if u = k.onScreen then
      { k.terminals u with
        screenX := k.screen.screenX % 256, screenY := k.screen.screenY % 256, videoBuffer := termPage u
        bufKb := copyKb (k.terminals u).bufKb k.keyboard.keyboardBuffer, currIdx := (k.keyboard.kbIdx % 256).toNat }
      else k.terminals u := by
  by_cases hu : u = k.onScreen
  · subst hu; simp [switchTo, saveCursor, loadCursor, updateScreenAxis]
  · simp [switchTo, saveCursor, loadCursor, updateScreenAxis, hu]

/-- A switch copies the displayed page away and the page of the new terminal in its place: no screen changes. -/
theorem switchTo_screenOf (k : Kernel) {t : Fin 3} (ht : t ≠ k.onScreen) (u : Fin 3) {i : Nat} (hi : i < 4096) :
    screenOf (switchTo k t) u i = screenOf k u i := by
  obtain ⟨hvram, hon, -⟩ := switchTo_screen k t
  have hpage : ∀ v w : Fin 3, v ≠ w → termPage v + 4096 ≤ termPage w ∨ termPage w + 4096 ≤ termPage v := by
    intro v w hvw
    have hval : v.val ≠ w.val := fun heq => hvw (Fin.ext heq)
    rw [termPage_eq, termPage_eq]
    omega
  have hmain : ∀ v, mainVideo + 4096 ≤ termPage v := by
    intro v
    rw [termPage_eq]
    unfold mainVideo
    omega
  have hout : ∀ v, ¬(mainVideo ≤ termPage v + i ∧ termPage v + i < mainVideo + 4096) := by
    intro v
    have := hmain v
    omega
  unfold screenOf screenBase
  rw [hvram, hon]
  by_cases hut : u = t
  · -- the page of the new terminal is displayed now
    subst hut
    have hold := hpage u k.onScreen ht
    rw [if_pos rfl, if_neg ht, blit_of_mem hi, sameOutside_blit _ _ _ _ _ (by omega)]
  · rw [if_neg hut, sameOutside_blit _ _ _ _ _ (hout u)]
    by_cases huold : u = k.onScreen
    · -- the displayed page has gone to the terminal's own page
      subst huold
      rw [if_pos rfl, blit_of_mem hi]
    · have hold := hpage u k.onScreen huold
      rw [if_neg huold, sameOutside_blit _ _ _ _ _ (by omega)]

theorem ScreensOk.switchTo (h : ScreensOk k) {t : Fin 3} (ht : t ≠ k.onScreen) : ScreensOk (switchTo k t) := by
  obtain ⟨-, hon, hflag⟩ := switchTo_screen k t
  obtain ⟨hx, hy⟩ := switchTo_cursor k ht
  obtain ⟨hgridX, hgridY⟩ := h.inGrid
  refine ⟨?_, ?_, ?_, ?_⟩
  · rw [Screen.InGrid, hx, hy]
    exact h.cursor t
  · intro u
    have hcursor := h.cursor u
    rw [switchTo_records]
    split
    · simp only [CursorOk]
      omega
    · exact hcursor
  · intro u
    rw [switchTo_records]
    split
    · exact .inl rfl
    · next hu =>
      rcases h.buffer u with hown | ⟨-, hmain⟩
      · exact .inl hown
      · exact absurd hmain hu
  · rw [hflag]
    exact h.noEcho

theorem switchTerminalKeypress_screens (h : ScreensOk k) (targetTerminal : Nat) :
    ScreensOk (switchTerminalKeypress k targetTerminal) ∧
      ∀ u, ∀ i < 4096, screenOf (switchTerminalKeypress k targetTerminal) u i = screenOf k u i := by
  unfold switchTerminalKeypress
  split_ifs with hstay
  · exact ⟨h, fun _ _ _ => rfl⟩
  · have hne : (⟨targetTerminal, by omega⟩ : Fin 3) ≠ k.onScreen := by
      intro heq
      exact hstay (.inl (congrArg Fin.val heq))
    exact ⟨h.switchTo hne, fun u i hi => switchTo_screenOf k hne u hi⟩

/-! ### Ticks -/

/-- A part of a tick that prints nothing. -/
structure Quiet (k k' : Kernel) : Prop where
  vram : k'.screen.vram = k.screen.vram
  onScreen : k'.onScreen = k.onScreen
  ok : ScreensOk k → ScreensOk k'

theorem Quiet.trans {k'' : Kernel} (h : Quiet k k') (h' : Quiet k' k'') : Quiet k k'' where
  vram := h'.vram.trans h.vram
  onScreen := h'.onScreen.trans h.onScreen
  ok hk := h'.ok (h.ok hk)

theorem pitSave_quiet (k : Kernel) (frame : Frame) : Quiet k (pitSave k frame) where
  vram := rfl
  onScreen := rfl
  ok h := by
    obtain ⟨pcbs, heq⟩ := pitSave_eq k frame
    have hpcbs : ScreensOk { k with allPcbs := pcbs } := h.same rfl rfl rfl fun _ => ⟨rfl, rfl, rfl⟩
    exact heq ▸ hpcbs.saveCursor k.currTerminal

theorem switchTerminalWork_quiet (k : Kernel) (t : Fin 3) : Quiet k (switchTerminalWork k t) where
  vram := rfl
  onScreen := rfl
  ok h := (h.saveCursor k.onScreen).loadCursor t

/-- Making terminal `t` current. -/
theorem current_quiet (k : Kernel) (t : Fin 3) (n : Nat) : Quiet k { k with currTerminal := t, pitCount := n } where
  vram := rfl
  onScreen := rfl
  ok h := h.same rfl rfl rfl fun _ => ⟨rfl, rfl, rfl⟩

private theorem pitSelect_quiet (k : Kernel) (t : Fin 3) : Quiet k (pitSelect k t) := by
  have hwork := (current_quiet k t k.pitCount).trans (switchTerminalWork_quiet _ t)
  have hsave : Quiet (switchTerminalWork { k with currTerminal := t } t)
      (saveCursor (switchTerminalWork { k with currTerminal := t } t) t) :=
    { vram := rfl, onScreen := rfl, ok := fun h => h.saveCursor t }
  exact hwork.trans (hsave.trans (current_quiet _ t (k.pitCount + 1)))

private theorem pitReturn_quiet (k : Kernel) : Quiet k (pitReturn k).1 where
  vram := rfl
  onScreen := rfl
  ok h :=
    { inGrid := h.inGrid
      cursor := fun t => by
        by_cases ht : t = k.currTerminal
        · subst ht; simpa [pitReturn, CursorOk] using h.cursor k.currTerminal
        · simpa [pitReturn, ht] using h.cursor t
      buffer := fun t => by
        by_cases ht : t = k.currTerminal
        · subst ht
          by_cases hon : k.currTerminal = k.onScreen
          · right
            simp [pitReturn, hon]
          · left
            simp [pitReturn, hon]
        · simpa [pitReturn, ht] using h.buffer t
      noEcho := h.noEcho }

/-- What a tick does to the screens: without a change of its own, it prints some text on the terminal it leaves
current. -/
def PrintsOnly (k k' : Kernel) : Prop :=
  ∃ k₁ text, Quiet k k₁ ∧ k₁.currTerminal = k'.currTerminal ∧ k'.screen.vram = (puts k₁ text).screen.vram

theorem sysExecute_screens (h : ScreensOk k) (command : Option (List UInt8)) (frame : Frame) :
    ScreensOk (sysExecute k command frame).1 := by
  have hd := sysExecute_sameDevices k command frame
  obtain ⟨text, htext⟩ := hd.screen
  have hputs : ScreensOk (puts k text) := h.puts text
  refine ScreensOk.same hputs htext ?_ ?_ ?_
  · rw [puts_eq]; exact hd.keyboard
  · rw [puts_eq]; exact hd.onScreen
  · intro t
    rw [puts_eq]
    obtain ⟨procs, currProcess, hrest⟩ := sysExecute_terminals k command frame t
    rw [hrest]
    exact ⟨rfl, rfl, rfl⟩

/-- A boot tick selects its terminal, prints its message there, and executes the shell, which may print too. -/
private theorem pitBoot_execute_screens (h : ScreensOk k) (frame execFrame : Frame) (hcount : k.pitCount < 3) :
    let k' := (sysExecute (pitBoot k frame hcount) (some (asBytes "shell")) execFrame).1
    ScreensOk k' ∧ k'.onScreen = k.onScreen ∧ PrintsOnly k k' := by
  intro k'
  have hquiet := (pitSave_quiet k frame).trans (pitSelect_quiet (pitSave k frame) ⟨k.pitCount, hcount⟩)
  generalize hk₁ : pitSelect (pitSave k frame) ⟨k.pitCount, hcount⟩ = k₁ at hquiet
  have hboot : pitBoot k frame hcount = puts k₁ (asBytes "Terminal " ++ itoa k₁.pitCount 10 ++ asBytes "\n") := by
    rw [← hk₁]
    rfl
  generalize asBytes "Terminal " ++ itoa k₁.pitCount 10 ++ asBytes "\n" = message at hboot
  have hd := sysExecute_sameDevices (pitBoot k frame hcount) (some (asBytes "shell")) execFrame
  have hok : ScreensOk (pitBoot k frame hcount) := hboot ▸ (hquiet.ok h).puts message
  obtain ⟨text, htext⟩ := hd.screen
  have hprinted : k'.screen = (puts k₁ (message ++ text)).screen := by
    rw [← puts_append, ← hboot]
    exact htext
  have hon : (pitBoot k frame hcount).onScreen = k₁.onScreen := by rw [hboot, puts_eq]
  have hcurr : (pitBoot k frame hcount).currTerminal = k₁.currTerminal := by rw [hboot, puts_eq]
  refine ⟨sysExecute_screens hok _ _, hd.onScreen.trans (hon.trans hquiet.onScreen), k₁, message ++ text, hquiet, ?_,
    ?_⟩
  · exact (hd.currTerminal.trans hcurr).symm
  · exact congrArg Screen.vram hprinted

theorem pitHandler_screens (h : ScreensOk k) (frame execFrame : Frame) :
    ScreensOk (pitHandler k frame execFrame).1 ∧ (pitHandler k frame execFrame).1.onScreen = k.onScreen ∧
      PrintsOnly k (pitHandler k frame execFrame).1 := by
  -- the end of the handler changes no screen
  have hreturn : ∀ k₂, ScreensOk k₂ → k₂.onScreen = k.onScreen → PrintsOnly k k₂ →
      ScreensOk (pitReturn k₂).1 ∧ (pitReturn k₂).1.onScreen = k.onScreen ∧ PrintsOnly k (pitReturn k₂).1 := by
    rintro k₂ hok hon ⟨k₁, text, hquiet, hcurr, hvram⟩
    have hq := pitReturn_quiet k₂
    exact ⟨hq.ok hok, hq.onScreen.trans hon, k₁, text, hquiet, hcurr, hq.vram.trans hvram⟩
  -- a handler that has printed nothing yet
  have hsilent : ∀ k₂, Quiet k k₂ → ScreensOk k₂ ∧ k₂.onScreen = k.onScreen ∧ PrintsOnly k k₂ :=
    fun k₂ hq => ⟨hq.ok h, hq.onScreen, k₂, [], hq, rfl, rfl⟩
  by_cases hcount : k.pitCount < 3
  · obtain ⟨hok, hon, hprints⟩ := pitBoot_execute_screens h frame execFrame hcount
    rw [pitHandler_early hcount]
    generalize sysExecute (pitBoot k frame hcount) (some (asBytes "shell")) execFrame = r at hok hon hprints ⊢
    obtain ⟨k₂, res⟩ := r
    cases res with
    | error => exact hreturn k₂ hok hon hprints
    | launched eip => exact ⟨hok, hon, hprints⟩
    | faulted => exact ⟨hok, hon, hprints⟩
  · have hsave := pitSave_quiet k frame
    have hcount' : ¬(pitSave k frame).pitCount < 3 := hcount
    unfold pitHandler
    dsimp only
    rw [dif_neg hcount']
    split
    · have hwork := (current_quiet (pitSave k frame) 0 (pitSave k frame).pitCount).trans
        (switchTerminalWork_quiet _ 0)
      obtain ⟨hok, hon, hprints⟩ := hsilent _ (hsave.trans (hwork.trans (current_quiet _ 0 4)))
      exact hreturn _ hok hon hprints
    · obtain ⟨hok, hon, hprints⟩ := hsilent _ hsave
      exact hreturn _ hok hon hprints

/-! ### Halts and keys -/

theorem released_screens (h : ScreensOk k) : ScreensOk (released k) := by
  have hrel := released_spec k
  exact h.same hrel.screen hrel.keyboard hrel.onScreen fun t => by rw [hrel.terminals]; exact ⟨rfl, rfl, rfl⟩

theorem sysHalt_screens (h : ScreensOk k) (status : UInt8) (frame : Frame) : ScreensOk (sysHalt k status frame).1 := by
  have hreleased := released_screens h
  have hreturn : ∀ k, ScreensOk k → ScreensOk (haltReturn k status).1 := by
    intro k hk
    have hspec := haltReturn_spec k status
    refine hk.same hspec.screen hspec.keyboard hspec.onScreen fun t => ?_
    rw [hspec.terminals]
    by_cases ht : t = k.currTerminal
    · obtain ⟨procs, currProcess, hrest⟩ := k.curr.pop_rest
      rw [ht, Function.update_self, hrest]
      exact ⟨rfl, rfl, rfl⟩
    · rw [Function.update_of_ne ht]
      exact ⟨rfl, rfl, rfl⟩
  refine sysHalt_keeps hreleased ?_ hreturn
  exact fun _ hk => sysExecute_screens hk _ frame

/-- A store to the line and its counters. -/
theorem ScreensOk.keyboard (h : ScreensOk k) {kb : Keyboard}
    (hflag : kb.keypressToVidFlag = k.keyboard.keypressToVidFlag) :
    ScreensOk { k with keyboard := kb } :=
  { h with noEcho := hflag.trans h.noEcho }

theorem keyboardHandler_screens (h : ScreensOk k) (scanCode : Nat) (past : UInt8) :
    ScreensOk (keyboardHandler k scanCode past).1 := by
  have henter : ∀ k : Kernel, ScreensOk k →
      ScreensOk (k.setTerminal k.onScreen fun t => { t with enterPFlag := true }) := by
    intro k hk
    refine hk.same rfl rfl rfl fun t => ?_
    rw [setTerminal_terminals]
    by_cases ht : t = k.onScreen
    · rw [ht, Function.update_self]
      exact ⟨rfl, rfl, rfl⟩
    · rw [Function.update_of_ne ht]
      exact ⟨rfl, rfl, rfl⟩
  exact keyboardHandler_keeps h scanCode past (fun _ _ hflag hk => hk.keyboard hflag) (fun _ c hk => hk.echo c)
    (fun _ hk => hk.erase) (fun _ hk => { hk with inGrid := Screen.clear_inGrid _ _ }) henter
    fun _ n hk => (switchTerminalKeypress_screens hk n).1

end Invariant

/-! ### Steps and runs -/

/-- `line` stands for what else happens to the typed line, whose first character `rm_c` looks at. -/
inductive ScreenEvent
  | tick (frame execFrame : Frame)
  | print (c : UInt8)
  | echo (c : UInt8)
  | erase
  | switch (targetTerminal : Nat)
  | line (keyboardBuffer : Int → UInt8)

/-- The state after an event. -/
def screenStep (k : Kernel) : ScreenEvent → Kernel
  | .tick frame execFrame => (pitHandler k frame execFrame).1
  | .print c => putc k c
  | .echo c => echo k c
  | .erase => erase k
  | .switch targetTerminal => switchTerminalKeypress k targetTerminal
  | .line keyboardBuffer => { k with keyboard := { k.keyboard with keyboardBuffer := keyboardBuffer } }

/-- What an event may change on the screens. -/
def Isolated (k : Kernel) (e : ScreenEvent) (k' : Kernel) : Prop :=
  match e with
  | .tick _ _ => PrintsOnly k k' ∧ OnlyScreen k k' k'.currTerminal
  | .print _ => OnlyScreen k k' k.currTerminal
  | .echo _ | .erase => OnlyScreen k k' k.onScreen
  | .switch _ | .line _ => ∀ t, ∀ i < 4096, screenOf k' t i = screenOf k t i

theorem PrintsOnly.onlyScreen {k k' : Kernel} (h : ScreensOk k) (hon : k'.onScreen = k.onScreen)
    (hp : PrintsOnly k k') : OnlyScreen k k' k'.currTerminal := by
  obtain ⟨k₁, text, hquiet, hcurr, hvram⟩ := hp
  have hprint := (puts_onlyScreen (hquiet.ok h) text).stores
  have hbase : screenBase k₁ k₁.currTerminal = screenBase k k'.currTerminal := by
    rw [screenBase, hquiet.onScreen, hcurr, screenBase]
  refine onlyScreen_of_stores hon ?_
  rw [hvram, ← hquiet.vram, ← hbase]
  exact hprint

theorem screenStep_isolated {k : Kernel} (h : ScreensOk k) (e : ScreenEvent) :
    ScreensOk (screenStep k e) ∧ Isolated k e (screenStep k e) := by
  cases e with
  | tick frame execFrame =>
    obtain ⟨hok, hon, hprints⟩ := pitHandler_screens h frame execFrame
    exact ⟨hok, hprints, hprints.onlyScreen h hon⟩
  | print c => exact ⟨h.puts [c], puts_onlyScreen h [c]⟩
  | echo c => exact ⟨h.echo c, echo_onlyScreen h c⟩
  | erase => exact ⟨h.erase, erase_onlyScreen h⟩
  | switch targetTerminal => exact switchTerminalKeypress_screens h targetTerminal
  | line keyboardBuffer => exact ⟨{ h with }, fun _ _ _ => rfl⟩

/-- `start_terminals` sets up the screens, whatever has been printed before. -/
private theorem startTerminals_screensOk {k : Kernel} (hgrid : k.screen.InGrid)
    (hflag : k.keyboard.keypressToVidFlag = false) : ScreensOk (startTerminals k) where
  inGrid := hgrid
  cursor t := ⟨show 0 < 80 by omega, show 0 < 25 by omega⟩
  buffer t := .inl rfl
  noEcho := hflag

private theorem bootKernel_screen (b : Boot) :
    (bootKernel b).screen.InGrid ∧ (bootKernel b).keyboard.keypressToVidFlag = false := by
  have hclear : (clear (zeroKernel b)).screen.InGrid := Screen.clear_inGrid _ _
  refine ⟨puts_inGrid hclear b.text, ?_⟩
  unfold bootKernel
  dsimp only
  rw [puts_eq]
  rfl

/-- The screens at the start. -/
theorem startTerminals_boot (b : Boot) : ScreensOk (startTerminals (bootKernel b)) :=
  startTerminals_screensOk (bootKernel_screen b).1 (bootKernel_screen b).2

/-- Screen isolation.  In every run from the state `start_terminals` leaves, each print changes only the screen of the
current terminal, each echo and erasure only the one on screen, each tick only prints on the terminal it leaves
current, and a switch changes no terminal's screen. -/
theorem screen_isolation {b : Boot} {events : List ScreenEvent} {k : Kernel}
    (hrun : Run (fun k e k' => screenStep k e = k') (startTerminals (bootKernel b)) events k) (e : ScreenEvent) :
    Isolated k e (screenStep k e) := by
  have hok : ScreensOk k := by
    refine Run.invariant ?_ hrun (startTerminals_boot b)
    rintro k e _ hk rfl
    exact (screenStep_isolated hk e).1
  exact (screenStep_isolated hok e).2

/-- The second terminal is shown after the first tick. -/
theorem shellBoot_screen_isolation :
    let k := screenStep (startTerminals (bootKernel shellBoot)) (.tick frame₀ frame₀)
    Isolated k (.switch 1) (screenStep k (.switch 1)) := by
  intro k
  exact screen_isolation (b := shellBoot) (Run.single rfl) (.switch 1)

end BigChungOS
