import BigChungOS.SysCalls

/-!
# Terminals and the timer (sched.c) and the boot sequence (kernel.c)
-/

namespace BigChungOS

open Memory

/-- `terminals[t].screen_x = get_screen_pos(0)` and the same for `y`; the fields are `uint8_t`. -/
def saveCursor (k : Kernel) (t : Fin 3) : Kernel :=
  k.setTerminal t fun r => { r with screenX := k.screen.screenX % 256, screenY := k.screen.screenY % 256 }

/-- Load the cursor saved for terminal `t`. -/
def loadCursor (k : Kernel) (t : Fin 3) : Kernel :=
  updateScreenAxis k (k.terminals t).screenX (k.terminals t).screenY

/-- `switch_terminal_work`; its callers pass a terminal number. -/
def switchTerminalWork (k : Kernel) (targetTerminal : Fin 3) : Kernel :=
  loadCursor (saveCursor k k.onScreen) targetTerminal

/-- `memcpy` of a keyboard buffer: its 128 characters. -/
def copyKb (dest src : Int → UInt8) : Int → UInt8 := fun i => if 0 ≤ i ∧ i < 128 then src i else dest i

/-- The part of `switch_terminal_keypress` after its check: save the screen, the line and the cursor of the terminal
on screen, load those of `t`. -/
def switchTo (k : Kernel) (t : Fin 3) : Kernel :=
  let old := k.onScreen
  let k := saveCursor k old
  let k := { k with screen := { k.screen with vram := blit k.screen.vram (termPage old) mainVideo 4096 } }
  let k := k.setTerminal old fun r => { r with videoBuffer := termPage old }
  let k := { k with screen := { k.screen with vram := blit k.screen.vram mainVideo (termPage t) 4096 } }
  let k := k.setTerminal old fun r => { r with bufKb := copyKb r.bufKb k.keyboard.keyboardBuffer }
  let k := { k with keyboard := { k.keyboard with
    keyboardBuffer := copyKb k.keyboard.keyboardBuffer (k.terminals t).bufKb } }
  let k := k.setTerminal old fun r => { r with currIdx := (k.keyboard.kbIdx % 256).toNat }
  let k := { k with keyboard := { k.keyboard with kbIdx := (k.terminals t).currIdx } }
  let k := { k with onScreen := t }
  let k := loadCursor k t
  { k with currTerminal := t }

/-- `switch_terminal_keypress`; the keyboard handler passes 0, 1 or 2. -/
def switchTerminalKeypress (k : Kernel) (targetTerminal : Nat) : Kernel :=
  if h : targetTerminal = k.onScreen.val ∨ targetTerminal ≥ 3 then k
  else switchTo k ⟨targetTerminal, by omega⟩

/-- The way the timer interrupt ends: in a launched shell, back in the interrupted code with the stack it loads, or
in a page fault of `sys_execute`. -/
inductive PitResult
  | launched (eip : Int)
  | returned (frame : Frame)
  | faulted
deriving DecidableEq

/-- The start of `pit_handler`: save `%ebp`, `%esp` and the cursor for the current terminal. -/
def pitSave (k : Kernel) (frame : Frame) : Kernel :=
  let k := k.setPcb (k.curr.ebp k.curr.currProcess) fun pcb => { pcb with ebpTask := frame.ebp }
  let k := k.setPcb (k.curr.esp k.curr.currProcess) fun pcb => { pcb with espTask := frame.esp }
  saveCursor k k.currTerminal

/-- The end of `pit_handler`: the kernel stack of the process on top of the current terminal, the stack to return
to, and the video buffer of the current terminal. -/
def pitReturn (k : Kernel) : Kernel × PitResult :=
  let t := k.curr
  let k := { k with tss := { k.tss with esp0 := kernelStack (t.proc t.currProcess) } }
  let frame : Frame :=
    { ebp := (k.allPcbs (t.ebp t.currProcess)).ebpTask, esp := (k.allPcbs (t.esp t.currProcess)).espTask }
  (k.setTerminal k.currTerminal fun t =>
    { t with videoBuffer := if k.currTerminal = k.onScreen then mainVideo else termPage k.currTerminal },
    .returned frame)

/-- The part of a boot tick before its `printf`: make the next terminal current and load its cursor. -/
def pitSelect (k : Kernel) (t : Fin 3) : Kernel :=
  let k := switchTerminalWork { k with currTerminal := t } t
  { saveCursor k t with pitCount := k.pitCount + 1 }

/-- `pit_handler`; `execFrame` is the frame of the `sys_execute` it may call. -/
def pitHandler (k : Kernel) (frame execFrame : Frame) : Kernel × PitResult :=
  let k := pitSave k frame
  if h : k.pitCount < 3 then
    let k := pitSelect k ⟨k.pitCount, h⟩
    let k := puts k (asBytes "Terminal " ++ itoa k.pitCount 10 ++ asBytes "\n")
    match sysExecute k (some (asBytes "shell")) execFrame with
    | (k, .launched eip) => (k, .launched eip)
    | (k, .faulted) => (k, .faulted)
    | (k, .error) => pitReturn k
  else if k.pitCount = 3 then
    pitReturn { switchTerminalWork { k with currTerminal := 0 } 0 with pitCount := 4 }
  else pitReturn k

/-- `start_terminals`. -/
def startTerminals (k : Kernel) : Kernel :=
  { k with
    onScreen := 0
    currTerminal := 0
    terminals := fun t => { k.terminals t with
      screenX := 0
      screenY := 0
      currIdx := 0
      enterPFlag := false
      currProcess := 0
      videoBuffer := termPage t
      bufKb := fun i => if 0 ≤ i ∧ i < 128 then 0 else (k.terminals t).bufKb i } }

/-! ### Boot -/

/-- What the boot loader and the machine provide: the file system module and where it is, the page tables, the text
`entry` prints about the boot information, and the contents of the memory the kernel does not initialise. -/
structure Boot where
  bootBlockPtr : Nat
  image : Nat → UInt8
  addrs : TableAddrs
  text : List UInt8
  cmos : Nat → UInt8
  memory : Nat → UInt8
  keyboardPast : Int → UInt8
  tables : Paging

/-- A descriptor slot of the zeroed `all_pcbs`. -/
def zeroFd : FdTable :=
  { fop_ := .null, fileType := 0, filename := fun _ => 0, exists_ := false, fileBytesRead := 0, inode := 0 }

/-- The globals as the program is loaded: everything zero but `video_mem` and `flag_keys`. -/
def zeroKernel (b : Boot) : Kernel where
  fs :=
    { bootBlockPtr := b.bootBlockPtr
      image := b.image
      bootBlockMain := { dirCount := 0, inodeCount := 0, dataCount := 0, direntries := fun _ => emptyDentry }
      currDir := 0
      dirIsOpen := false }
  rtc := { index := 0, cmos := b.cmos, interruptFlag := false }
  paging := b.tables
  tss := { esp0 := 0x800000, ss0 := 0x18 }
  screen := { screenX := 0, screenY := 0, videoMem := mainVideo, vram := b.memory }
  keyboard :=
    { keyboardBuffer := fun i => if 0 ≤ i ∧ i < 128 then 0 else b.keyboardPast i
      kbIdx := 0, charCount := 0, keypressToVidFlag := false
      shiftFlag := 0, capsFlag := 1, ctrlFlag := 0, altFlag := 0 }
  terminals := fun _ =>
    { screenX := 0, screenY := 0, bufKb := fun _ => 0, currIdx := 0, enterPFlag := false
      ebp := fun _ => 0, esp := fun _ => 0, videoBuffer := 0, procs := fun _ => 0, currProcess := 0 }
  onScreen := 0
  currTerminal := 0
  pitCount := 0
  allPcbs := fun _ =>
    { oldEsp := 0, oldEbp := 0, inUse := false, fdt := fun _ => zeroFd, args := fun _ => 0
      espTask := 0, ebpTask := 0 }
  pidCounter := 0
  prevPid := 0
  flagException := false
  userMem := fun p off => b.memory (userFrame p + off)

/-- `entry` up to its call of `start_terminals`. -/
def bootKernel (b : Boot) : Kernel :=
  let k := clear (zeroKernel b)
  let k := puts k b.text
  let k := { k with paging := pagingInit b.addrs k.paging, rtc := initRtc k.rtc, flagException := false }
  { k with fs := (dirOpen k.fs (cString (asBytes "."))).1 }

/-- `entry`: the state in which the kernel waits for the first timer tick. -/
def entry (b : Boot) : Kernel := clear (startTerminals (bootKernel b))

end BigChungOS
