import BigChungOS.Lib.Memory
import Mathlib.Data.Fintype.Basic
import Mathlib.Tactic.FinCases
import Mathlib.Tactic.IntervalCases

/-!
# The kernel state

The globals of the kernel, one record for each source file that owns them, and `Kernel`, which holds them all.
An index the code keeps inside an array has a `Fin` type (`pid_counter`, `on_screen`, `curr_terminal`, a file
descriptor after its range check); an index the code does not check (`curr_process`, `kb_idx`) stays an `Int`, and
the array it runs over is a function on all of `Int`, whose cells outside the array stand for the memory around it
(the cell behind `procs` is `curr_process`, which `TerminalT.proc` and `TerminalT.setProc` take into account).
Fields that no modelled function reads or writes are left out.
-/

namespace BigChungOS

/-! ### Numerals that name a terminal, a process or a descriptor -/

instance terminalsNeZero : NeZero 3 := ⟨by decide⟩
instance processesNeZero : NeZero 6 := ⟨by decide⟩
instance descriptorsNeZero : NeZero 8 := ⟨by decide⟩

/-- A pointer the kernel gets from a caller: `NULL`, or the bytes found from it on. -/
abbrev Ptr := Option (Nat → UInt8)

/-- The bytes of a C string literal. -/
def asBytes (s : String) : List UInt8 := s.toList.map Char.toUInt8

/-- The memory at a NUL-terminated string. -/
def cString (s : List UInt8) : Nat → UInt8 := fun i => s.getD i 0

/-- `%ebp` and `%esp` at the point where a function saves them. -/
structure Frame where
  ebp : Nat
  esp : Nat
deriving DecidableEq

/-! ### FileSystem.h -/

/-- `dentry_t`, with the 32 bytes of `filename`. -/
structure DentryT where
  filename : Nat → UInt8
  filetype : Int
  inodeNum : Nat

/-- `boot_block_t`; the three counts are kept as the unsigned words read from the image. -/
structure BootBlockT where
  dirCount : Nat
  inodeCount : Nat
  dataCount : Nat
  direntries : Nat → DentryT

/-- The globals of FileSystem.h; `image` is the memory from `boot_block_ptr` on. -/
structure FileSystem where
  bootBlockPtr : Nat
  image : Nat → UInt8
  bootBlockMain : BootBlockT
  currDir : Nat
  dirIsOpen : Bool

/-! ### rtc.c -/

/-- The CMOS behind the two RTC ports (an index register and a byte array) and `interrupt_flag`. -/
structure Rtc where
  index : Nat
  cmos : Nat → UInt8
  interruptFlag : Bool

/-! ### memory.c and x86_desc.h -/

/-- The three 1024-entry tables of memory.c. -/
structure Paging where
  pageDirectory : Nat → Nat
  pageTable1 : Nat → Nat
  pageTable2 : Nat → Nat

/-- The fields of `tss` that change after boot. -/
structure Tss where
  esp0 : Nat
  ss0 : Nat
deriving DecidableEq

/-! ### lib.c -/

/-- The cursor and the video pointer of lib.c, and the memory the video pointers point into. -/
structure Screen where
  screenX : Nat
  screenY : Nat
  videoMem : Nat
  vram : Nat → UInt8

/-! ### keyboard.c -/

/-- The globals of keyboard.c: the typed line, its two counters and the four entries of `flag_keys`. -/
structure Keyboard where
  keyboardBuffer : Int → UInt8
  kbIdx : Int
  charCount : Int
  keypressToVidFlag : Bool
  shiftFlag : Int
  capsFlag : Int
  ctrlFlag : Int
  altFlag : Int

/-! ### sched.h -/

/-- `terminal_t`.  The arrays are total: the cells outside them are cells of their own here, but for `procs[6]`, which
is `curr_process`. -/
structure TerminalT where
  screenX : Nat
  screenY : Nat
  bufKb : Int → UInt8
  currIdx : Nat
  enterPFlag : Bool
  ebp : Int → Fin 6
  esp : Int → Fin 6
  videoBuffer : Nat
  procs : Int → Int
  currProcess : Int

namespace TerminalT

/-- `procs[i]`; the cell behind the array, `procs[6]`, is `curr_process`. -/
def proc (t : TerminalT) (i : Int) : Int := if i = 6 then t.currProcess else t.procs i

/-- `procs[i] = x`. -/
def setProc (t : TerminalT) (i x : Int) : TerminalT :=
  if i = 6 then { t with currProcess := x } else { t with procs := Function.update t.procs i x }

end TerminalT

/-! ### sys_calls.h -/

/-- The operation tables a descriptor's `fop_` can point to; `null` is the zero of an unused slot. -/
inductive Fop
  | null
  | rtc
  | file
  | dir
  | terminal
deriving DecidableEq

/-- `fd_table`, one slot of a descriptor table. -/
structure FdTable where
  fop_ : Fop
  fileType : Int
  filename : Nat → UInt8
  exists_ : Bool
  fileBytesRead : Nat
  inode : Nat

/-- `pcb`. -/
structure Pcb where
  oldEsp : Nat
  oldEbp : Nat
  inUse : Bool
  fdt : Fin 8 → FdTable
  args : Nat → UInt8
  espTask : Nat
  ebpTask : Nat

/-- The whole kernel state.  `userMem p` is the 4MB frame that `update_user_addr(p)` maps at `0x8000000`. -/
structure Kernel where
  fs : FileSystem
  rtc : Rtc
  paging : Paging
  tss : Tss
  screen : Screen
  keyboard : Keyboard
  terminals : Fin 3 → TerminalT
  onScreen : Fin 3
  currTerminal : Fin 3
  pitCount : Nat
  allPcbs : Fin 6 → Pcb
  pidCounter : Fin 6
  prevPid : Fin 6
  flagException : Bool
  userMem : Fin 6 → Nat → UInt8

namespace Kernel

/-- The terminal record of `curr_terminal`. -/
def curr (k : Kernel) : TerminalT := k.terminals k.currTerminal

/-- Store through `terminals[t]`. -/
def setTerminal (k : Kernel) (t : Fin 3) (f : TerminalT → TerminalT) : Kernel :=
  { k with terminals := Function.update k.terminals t (f (k.terminals t)) }

/-- Store through `all_pcbs[p]`. -/
def setPcb (k : Kernel) (p : Fin 6) (f : Pcb → Pcb) : Kernel :=
  { k with allPcbs := Function.update k.allPcbs p (f (k.allPcbs p)) }

/-- The descriptor table of the running process. -/
def fdt (k : Kernel) : Fin 8 → FdTable := (k.allPcbs k.pidCounter).fdt

/-- Store through `all_pcbs[pid_counter].fdt[d]`. -/
def setFd (k : Kernel) (d : Fin 8) (f : FdTable → FdTable) : Kernel :=
  k.setPcb k.pidCounter fun p => { p with fdt := Function.update p.fdt d (f (p.fdt d)) }

end Kernel

/-- `TERM0`, `TERM1`, `TERM2`: the page that holds a terminal's screen while it is not displayed. -/
def termPage : Fin 3 → Nat
  | 0 => 0xB9000
  | 1 => 0xBA000
  | 2 => 0xBB000

/-- `MAIN_VIDEO`: the page the display shows. -/
def mainVideo : Nat := 0xB8000

theorem termPage_eq (t : Fin 3) : termPage t = 0xB9000 + 0x1000 * t.val := by
  fin_cases t <;> rfl

/-- The kernel stack of process `p`, the value the code stores in `tss.esp0`: `0x800000 - p*4096*2 - 4`. -/
def kernelStack (p : Int) : Nat := Memory.toUInt32 (0x800000 - p * 4096 * 2 - 4)

/-! ### Stores and the fields they leave alone -/

section Frames

variable (k : Kernel) (p q : Fin 6) (t u : Fin 3) (f : TerminalT → TerminalT) (g : Pcb → Pcb)

@[simp] theorem setTerminal_fs : (k.setTerminal t f).fs = k.fs := rfl
@[simp] theorem setTerminal_rtc : (k.setTerminal t f).rtc = k.rtc := rfl
@[simp] theorem setTerminal_paging : (k.setTerminal t f).paging = k.paging := rfl
@[simp] theorem setTerminal_tss : (k.setTerminal t f).tss = k.tss := rfl
@[simp] theorem setTerminal_screen : (k.setTerminal t f).screen = k.screen := rfl
@[simp] theorem setTerminal_keyboard : (k.setTerminal t f).keyboard = k.keyboard := rfl
@[simp] theorem setTerminal_onScreen : (k.setTerminal t f).onScreen = k.onScreen := rfl
@[simp] theorem setTerminal_currTerminal : (k.setTerminal t f).currTerminal = k.currTerminal := rfl
@[simp] theorem setTerminal_pitCount : (k.setTerminal t f).pitCount = k.pitCount := rfl
@[simp] theorem setTerminal_allPcbs : (k.setTerminal t f).allPcbs = k.allPcbs := rfl
@[simp] theorem setTerminal_pidCounter : (k.setTerminal t f).pidCounter = k.pidCounter := rfl
@[simp] theorem setTerminal_prevPid : (k.setTerminal t f).prevPid = k.prevPid := rfl
@[simp] theorem setTerminal_flagException : (k.setTerminal t f).flagException = k.flagException := rfl
@[simp] theorem setTerminal_terminals :
    (k.setTerminal t f).terminals = Function.update k.terminals t (f (k.terminals t)) := rfl

@[simp] theorem setPcb_fs : (k.setPcb p g).fs = k.fs := rfl
@[simp] theorem setPcb_rtc : (k.setPcb p g).rtc = k.rtc := rfl
@[simp] theorem setPcb_paging : (k.setPcb p g).paging = k.paging := rfl
@[simp] theorem setPcb_tss : (k.setPcb p g).tss = k.tss := rfl
@[simp] theorem setPcb_screen : (k.setPcb p g).screen = k.screen := rfl
@[simp] theorem setPcb_keyboard : (k.setPcb p g).keyboard = k.keyboard := rfl
@[simp] theorem setPcb_terminals : (k.setPcb p g).terminals = k.terminals := rfl
@[simp] theorem setPcb_onScreen : (k.setPcb p g).onScreen = k.onScreen := rfl
@[simp] theorem setPcb_currTerminal : (k.setPcb p g).currTerminal = k.currTerminal := rfl
@[simp] theorem setPcb_pitCount : (k.setPcb p g).pitCount = k.pitCount := rfl
@[simp] theorem setPcb_pidCounter : (k.setPcb p g).pidCounter = k.pidCounter := rfl
@[simp] theorem setPcb_prevPid : (k.setPcb p g).prevPid = k.prevPid := rfl
@[simp] theorem setPcb_flagException : (k.setPcb p g).flagException = k.flagException := rfl
@[simp] theorem setPcb_allPcbs :
    (k.setPcb p g).allPcbs = Function.update k.allPcbs p (g (k.allPcbs p)) := rfl

end Frames

end BigChungOS
