import BigChungOS.Lib.Programs
import BigChungOS.Arguments
import BigChungOS.NewlineAhead
import BigChungOS.RtcRegisters
import Mathlib.Data.List.Find

/-!
# What a program sees of the kernel

A program makes calls, and between them there are interrupts (`Returns`): any that return to the program, in
`kernelService`.  To the program all this is a small system of its own (`Os`): descriptors that are readers of files,
the directory or the clock, a position in the directory, the arguments, and the text written so far.  The relation
between the two is `Sees`; interrupts keep it (`Sees.interrupts`), and each call does to the one what it does to the
other.

The system says nothing about a read of a negative number of bytes, which moves the position of a file back, nor about
the pointers and the number that the kernel does not survive, and it does not say what is typed: a read of the keyboard
returns some line, and may wait for it.  The one byte that a call stores outside the buffer it has been given is left
out: the NUL of `sys_getargs` at `buf[nbytes + 1]`.
-/

namespace BigChungOS

open Memory Transition Reading Programs

/-! ### The calls of a program -/

/-- A system call, with the strings and bytes it finds at its pointers, or one that only has a number. -/
inductive Syscall
  | open_ (filename : List UInt8)
  | read (fd nbytes : Int)
  | write (fd : Int) (bytes : List UInt8)
  | close (fd : Int)
  | getargs (nbytes : Int)
  | vidmap (screenStart : Nat)
  | number (eax : Nat)

/-- The value a call returns, and the bytes it stores in the buffer. -/
abbrev CallResult := Int × List UInt8

/-- An interrupt that returns to the program. -/
inductive Interrupt : Kernel → Kernel → Prop
  | key {k : Kernel} (scanCode : Nat) (past : UInt8) : Interrupt k (keyboardHandler k scanCode past).1
  | tick {k : Kernel} (frame execFrame : Frame) (h : 3 ≤ k.pitCount) : Interrupt k (pitHandler k frame execFrame).1
  | clock {k : Kernel} : Interrupt k { k with rtc := handleRtc k.rtc }

/-- What the interrupts between two calls leave alone. -/
structure Interrupted (k k' : Kernel) : Prop extends SameProcesses k k' where
  args : ∀ p, ArgsKept p k k'

theorem Interrupted.refl (k : Kernel) : Interrupted k k := ⟨.refl k, fun _ => .refl k⟩

theorem Interrupt.interrupted {k k' : Kernel} (h : Interrupt k k') : Interrupted k k' := by
  cases h with
  | key scanCode past => exact ⟨keyboardHandler_sameProcesses k _ _, fun _ => keyboardHandler_argsKept k _ _⟩
  | tick frame execFrame hlate => exact ⟨(pitHandler_late hlate _ _).1, fun _ => pitHandler_argsKept k _ _⟩
  | clock => exact ⟨{ SameProcesses.refl k with }, fun _ => argsKept_of_pcb rfl⟩

theorem interrupts_interrupted {k k' : Kernel} (h : Relation.ReflTransGen Interrupt k k') : Interrupted k k' := by
  induction h with
  | refl => exact .refl k
  | tail _ hlast ih =>
    have hnext := hlast.interrupted
    exact ⟨ih.toSameProcesses.trans hnext.toSameProcesses, fun p => (ih.args p).trans (hnext.args p)⟩

/-- The kernel while it runs a program, and what the program has written to the terminal. -/
structure UserSession where
  kernel : Kernel
  printed : List UInt8

/-- The text a write prints: all of it if the descriptor is a terminal, else nothing. -/
def printedBy (k : Kernel) (fd : Int) (bytes : List UInt8) : List UInt8 :=
  if 0 < fd ∧ fd < 8 ∧ (k.fdt (fdIndex fd)).exists_ = true ∧ (k.fdt (fdIndex fd)).fop_ = .terminal then bytes else []

/-- The buffer at `buf` starts with the bytes. -/
def HasBytes (buf : Nat → UInt8) (bytes : List UInt8) : Prop := (List.range bytes.length).map buf = bytes

/-- `sys_set_handler` and `sys_sigreturn`, for signals that are not implemented. -/
def sysSetHandler : Int := -1
def sysSigreturn : Int := -1

/-- The result for a number that is none of the calls above: the gate refuses it, or jumps to one of the two functions.
It does not test for 11. -/
def otherCall (eax : Nat) : Option Int :=
  if eax = 9 then some sysSetHandler
  else if eax = 10 then some sysSigreturn
  else if eax = 0 ∨ 11 < eax then some (-1)
  else none

/-- Interrupts, out of those of `I`, and then the call. -/
inductive Returns (I : Kernel → Kernel → Prop) : UserSession → Syscall → CallResult → UserSession → Prop
  | open_ {k k₁ k' : Kernel} {printed filename : List UInt8} {pointer : Nat → UInt8} {r : Int}
      (hint : Relation.ReflTransGen I k k₁) (hname : IsString pointer filename)
      (h : sysOpen k₁ pointer = some (k', r)) : Returns I ⟨k, printed⟩ (.open_ filename) (r, []) ⟨k', printed⟩
  | read {k k₁ k' : Kernel} {printed stored : List UInt8} {fd nbytes r : Int} {buf : Nat → UInt8}
      (hint : Relation.ReflTransGen I k k₁) (h : sysRead k₁ fd (some buf) nbytes = some (k', r, stored)) :
      Returns I ⟨k, printed⟩ (.read fd nbytes) (r, stored) ⟨k', printed⟩
  | write {k k₁ k' : Kernel} {printed bytes : List UInt8} {fd r : Int} {buf : Nat → UInt8}
      (hint : Relation.ReflTransGen I k k₁) (hbuf : HasBytes buf bytes)
      (h : sysWrite k₁ fd (some buf) bytes.length = some (k', r)) :
      Returns I ⟨k, printed⟩ (.write fd bytes) (r, []) ⟨k', printed ++ printedBy k₁ fd bytes⟩
  | close {k k₁ : Kernel} {printed : List UInt8} {fd : Int} (hint : Relation.ReflTransGen I k k₁) :
      Returns I ⟨k, printed⟩ (.close fd) ((sysClose k₁ fd).2, []) ⟨(sysClose k₁ fd).1, printed⟩
  | getargs {k k₁ k' : Kernel} {printed : List UInt8} {nbytes : Int} {g : Getargs}
      (hint : Relation.ReflTransGen I k k₁) (h : sysGetargs k₁ nbytes = some (k', g)) :
      Returns I ⟨k, printed⟩ (.getargs nbytes) (g.result, (g.stores.take nbytes.toNat).map Prod.snd) ⟨k', printed⟩
  | vidmap {k k₁ k' : Kernel} {printed : List UInt8} {screenStart : Nat} {r : Int}
      (hint : Relation.ReflTransGen I k k₁) (h : sysVidmap k₁ screenStart = some (k', r)) :
      Returns I ⟨k, printed⟩ (.vidmap screenStart)
        (r, if r = 0 then span (k'.userMem k'.pidCounter) (screenStart - 0x8000000) 4 else []) ⟨k', printed⟩
  | number {k k₁ : Kernel} {printed : List UInt8} {eax : Nat} {r : Int}
      (hint : Relation.ReflTransGen I k k₁) (h : otherCall eax = some r) :
      Returns I ⟨k, printed⟩ (.number eax) (r, []) ⟨k₁, printed⟩

/-- A read of the keyboard waits for a line; every other call returns. -/
def Syscall.Waits : Syscall → Prop
  | .read fd _ => fd = 0
  | _ => False

/-- The calls as the kernel does them, between the interrupts of `I`. -/
def callService (I : Kernel → Kernel → Prop) : Service UserSession Syscall CallResult where
  takes s c := c.Waits ∨ ∃ r s', Returns I s c r s'
  returns := Returns I

/-- The calls as the kernel does them, between any interrupts. -/
def kernelService : Service UserSession Syscall CallResult := callService Interrupt

/-- What is printed is what goes to the screen. -/
theorem sysWrite_screen {k k' : Kernel} {fd r : Int} {buf : Nat → UInt8} {bytes : List UInt8}
    (hbuf : HasBytes buf bytes) (h : sysWrite k fd (some buf) bytes.length = some (k', r)) :
    k'.screen = (puts k (printedBy k fd bytes)).screen := by
  unfold sysWrite at h
  unfold printedBy
  by_cases hrange : fd ≤ 0 ∨ fd ≥ 8
  · simp only [hrange, if_true, Option.some.injEq, Prod.mk.injEq] at h
    rw [if_neg (by omega), ← h.1]
    rfl
  · have hpos : 0 < fd := by omega
    have hlt : fd < 8 := by omega
    cases hexists : (k.fdt (fdIndex fd)).exists_ with
    | false =>
      simp only [hrange, hexists, if_true, if_false, Option.some.injEq, Prod.mk.injEq] at h
      rw [← h.1, if_neg (by simp)]
      rfl
    | true =>
      simp only [hrange, hexists, if_false, Bool.true_eq_false] at h
      cases hfop : (k.fdt (fdIndex fd)).fop_ with
      | null => simp [hfop, fopWrite] at h
      | terminal =>
        simp only [hfop, fopWrite, terminalWrite, Int.toNat_natCast, Option.some.injEq, Prod.mk.injEq] at h
        rw [if_pos ⟨hpos, hlt, rfl, rfl⟩, ← h.1, show (List.range bytes.length).map buf = bytes from hbuf]
      | rtc | dir | file =>
        simp only [hfop, fopWrite, Option.some.injEq, Prod.mk.injEq] at h
        rw [← h.1, if_neg (by simp)]
        rfl

/-! ### What the program sees -/

/-- What a descriptor is to the program. -/
inductive View
  | file (r : Reading.Reader UInt8)
  | directory
  | clock

/-- A file that has just been opened. -/
def View.of (f : File) : View :=
  if f.filetype = 2 then .file (.start f.contents) else if f.filetype = 1 then .directory else .clock

/-- The system of a program, over the files of an image.  Descriptors 0 and 1 are the keyboard and the screen; `cursor`
is the next entry of the directory. -/
structure Os (files : List File) where
  views : Fin 8 → Option View
  cursor : Fin (files.length + 1)
  args : List UInt8
  out : List UInt8
  argsLength : args.length ≤ 32
  argsBytes : (0 : UInt8) ∉ args

namespace Os

variable {files : List File}

/-- The state of a program that starts. -/
def start (cursor : Fin (files.length + 1)) (args : List UInt8) (hlength : args.length ≤ 32)
    (hbytes : (0 : UInt8) ∉ args) : Os files where
  views _ := none
  cursor := cursor
  args := args
  out := []
  argsLength := hlength
  argsBytes := hbytes

/-- Another view of a descriptor. -/
def setView (os : Os files) (d : Fin 8) (v : Option View) : Os files :=
  { os with views := Function.update os.views d v }

/-- Another position in the directory. -/
def moveTo (os : Os files) (cursor : Fin (files.length + 1)) : Os files := { os with cursor := cursor }

/-- More text. -/
def print (os : Os files) (bytes : List UInt8) : Os files := { os with out := os.out ++ bytes }

/-- The arguments gone. -/
def noArgs (os : Os files) : Os files :=
  { os with args := [], argsLength := Nat.zero_le _, argsBytes := List.not_mem_nil }

section Fields

variable (os : Os files) (d : Fin 8) (v : Option View) (cursor : Fin (files.length + 1)) (bytes : List UInt8)

@[simp] theorem setView_views : (os.setView d v).views = Function.update os.views d v := rfl
@[simp] theorem setView_cursor : (os.setView d v).cursor = os.cursor := rfl
@[simp] theorem setView_args : (os.setView d v).args = os.args := rfl
@[simp] theorem setView_out : (os.setView d v).out = os.out := rfl
@[simp] theorem moveTo_views : (os.moveTo cursor).views = os.views := rfl
@[simp] theorem moveTo_cursor : (os.moveTo cursor).cursor = cursor := rfl
@[simp] theorem moveTo_args : (os.moveTo cursor).args = os.args := rfl
@[simp] theorem moveTo_out : (os.moveTo cursor).out = os.out := rfl
@[simp] theorem print_views : (os.print bytes).views = os.views := rfl
@[simp] theorem print_cursor : (os.print bytes).cursor = os.cursor := rfl
@[simp] theorem print_args : (os.print bytes).args = os.args := rfl
@[simp] theorem print_out : (os.print bytes).out = os.out ++ bytes := rfl
@[simp] theorem noArgs_views : os.noArgs.views = os.views := rfl
@[simp] theorem noArgs_cursor : os.noArgs.cursor = os.cursor := rfl
@[simp] theorem noArgs_args : os.noArgs.args = [] := rfl
@[simp] theorem noArgs_out : os.noArgs.out = os.out := rfl

end Fields

/-- The view of a descriptor from 2 on. -/
def view (os : Os files) (fd : Int) : Option View := if 2 ≤ fd ∧ fd < 8 then os.views (fdIndex fd) else none

/-- The least descriptor from 2 on that is not open. -/
def free (os : Os files) : Option (Fin 8) := ([2, 3, 4, 5, 6, 7] : List (Fin 8)).find? fun d => (os.views d).isNone

/-- Open the file whose name is what the string starts with, up to 32 characters. -/
def open_ (os : Os files) (filename : List UInt8) : Os files × Int :=
  match files.find? fun f => f.name = filename.take 32, os.free with
  | some f, some d =>
    ((os.setView d (some (.of f))).moveTo (if f.filetype = 1 ∧ filename.head? = some 0x2E then 0 else os.cursor), d.val)
  | _, _ => (os, -1)

/-- Read from a descriptor other than the keyboard. -/
def read (os : Os files) (fd nbytes : Int) : Os files × CallResult :=
  match os.view fd with
  | none => (os, -1, [])
  | some .clock => (os, 0, [])
  | some .directory => (os.moveTo (os.cursor + 1), (listing files).getD os.cursor.val (0, []))
  | some (.file r) =>
    (os.setView (fdIndex fd) (some (.file (r.next nbytes.toNat))), (r.chunk nbytes.toNat).length, r.chunk nbytes.toNat)

/-- The result of a write to the clock: the four bytes are a power of two of at most 1024, or 0, or the least
integer. -/
def clockWrite (bytes : List UInt8) : Int :=
  let freq := int32At (cString bytes)
  if bytes.length = 4 ∧ (BitVec.ofInt 32 freq &&& BitVec.ofInt 32 (freq - 1)) = 0 ∧ freq ≤ 1024 then 4 else -1

/-- Write to the screen or to the clock. -/
def write (os : Os files) (fd : Int) (bytes : List UInt8) : Os files × Int :=
  if fd = 1 then (os.print bytes, bytes.length)
  else
    match os.view fd with
    | some .clock => (os, clockWrite bytes)
    | _ => (os, -1)

/-- Close a descriptor; the directory is back at its first entry. -/
def close (os : Os files) (fd : Int) : Os files × Int :=
  match os.view fd with
  | none => (os, -1)
  | some .directory => ((os.setView (fdIndex fd) none).moveTo 0, 0)
  | some _ => (os.setView (fdIndex fd) none, 0)

/-- The arguments, padded with NULs; they are handed out once. -/
def getargs (os : Os files) (nbytes : Int) : Os files × CallResult :=
  if os.args = [] then (os, -1, [])
  else (os.noArgs, 0, (List.range nbytes.toNat).map (cString os.args))

/-- What a read of the keyboard returns: nothing, or a line of at most `nbytes` characters and one byte more. -/
def KeyboardLine (nbytes : Int) (r : CallResult) : Prop :=
  r = (0, []) ∨ 0 ≤ r.1 ∧ r.1 ≤ nbytes ∧ (r.2.length : Int) = r.1 + 1 ∧ ∀ c ∈ r.2.take r.1.toNat, c ≠ 0

/-- What `sys_vidmap` returns: the page of some terminal, if the pointer is in the user page. -/
def VideoPage (screenStart : Nat) (r : CallResult) : Prop :=
  if 0x8000000 ≤ screenStart ∧ screenStart < 0x8400000 then
    r.1 = 0 ∧ ∃ t : Fin 3, r.2 = wordBytes (0x8400000 + termPage t)
  else r = (-1, [])

/-- The calls the system has a meaning for. -/
def Takes : Syscall → Prop
  | .open_ filename => (0 : UInt8) ∉ filename
  | .read _ nbytes => 0 ≤ nbytes ∧ nbytes < 2147483648
  | .write _ bytes => bytes.length < 2147483648
  | .close _ => True
  | .getargs nbytes => 0 ≤ nbytes ∧ nbytes ≤ 1024
  | .vidmap screenStart => ¬(0x83FFFFD ≤ screenStart ∧ screenStart ≤ 0x8400000)
  | .number eax => ¬(1 ≤ eax ∧ eax ≤ 8) ∧ eax ≠ 11

/-- How they return. -/
def CallReturns (os : Os files) (c : Syscall) (r : CallResult) (os' : Os files) : Prop :=
  match c with
  | .open_ filename => os.open_ filename = (os', r.1) ∧ r.2 = []
  | .read fd nbytes => if fd = 0 then os' = os ∧ KeyboardLine nbytes r else os.read fd nbytes = (os', r)
  | .write fd bytes => os.write fd bytes = (os', r.1) ∧ r.2 = []
  | .close fd => os.close fd = (os', r.1) ∧ r.2 = []
  | .getargs nbytes => os.getargs nbytes = (os', r)
  | .vidmap screenStart => os' = os ∧ VideoPage screenStart r
  | .number _ => os' = os ∧ r = (-1, [])

end Os

/-- The calls as a program sees them. -/
def osService (files : List File) : Service (Os files) Syscall CallResult where
  takes _ := Os.Takes
  returns := Os.CallReturns

/-! ### The relation -/

/-- What descriptor `d` of the running process is. -/
def ViewOf (k : Kernel) (d : Fin 8) : Option View → Prop
  | none => (k.fdt d).exists_ = false
  | some (.file r) => ReadsAt d k r
  | some .directory => (k.fdt d).exists_ = true ∧ (k.fdt d).fop_ = .dir
  | some .clock => (k.fdt d).exists_ = true ∧ (k.fdt d).fop_ = .rtc

/-- The program sees `os`. -/
structure Sees (files : List File) (inodes blocks : Nat) (s : UserSession) (os : Os files) : Prop where
  filesOk : FilesOk files inodes blocks s.kernel
  inUse : s.kernel.inUse s.kernel.pidCounter = true
  views : ∀ d : Fin 8, 2 ≤ d.val → ViewOf s.kernel d (os.views d)
  cursor : s.kernel.fs.currDir = os.cursor.val
  args : ∀ i < 1024, (s.kernel.allPcbs s.kernel.pidCounter).args i = cString os.args i
  out : s.printed = os.out

section Step

variable {files : List File} {inodes blocks : Nat} {k k' : Kernel} {printed : List UInt8} {os os' : Os files}
  {d : Fin 8} {v : Option View}

/-- A step that leaves the slot as it is. -/
theorem ViewOf.keep (h : ViewOf k d v) (hslots : SlotsOk k') (hfs : ∃ n, k'.fs = { k.fs with currDir := n })
    (hd : k'.fdt d = k.fdt d) : ViewOf k' d v := by
  match v with
  | none => exact (congrArg FdTable.exists_ hd).trans h
  | some (.file r) => exact ReadsAt.keep h hslots hfs hd
  | some .directory | some .clock => rwa [ViewOf, hd]

/-- The slot of an open descriptor. -/
theorem ViewOf.exists {w : View} (h : ViewOf k d (some w)) : (k.fdt d).exists_ = true := by
  match w with
  | .file r => exact (ReadsAt.slot h).2.1
  | .directory | .clock => exact h.1

/-- The operations are those of the view. -/
def View.fop : View → Fop
  | .file _ => .file
  | .directory => .dir
  | .clock => .rtc

theorem ViewOf.fop {w : View} (h : ViewOf k d (some w)) : (k.fdt d).fop_ = w.fop := by
  match w with
  | .file r => exact (ReadsAt.slot h).2.2.1
  | .directory | .clock => exact h.2

theorem ViewOf.isSome (h : ViewOf k d v) : (k.fdt d).exists_ = v.isSome := by
  cases v with
  | none => exact h
  | some w => exact h.exists

/-- Interrupts change nothing the program sees. -/
theorem Sees.interrupted (h : Sees files inodes blocks ⟨k, printed⟩ os) (hint : Interrupted k k') :
    Sees files inodes blocks ⟨k', printed⟩ os := by
  have hslots := hint.slotsOk h.filesOk.slots
  have hpid := hint.pidCounter
  refine ⟨⟨hslots, ?_, ?_⟩, ?_, fun d hd => ?_, ?_, ?_, h.out⟩
  · rw [hint.fs]
    exact h.filesOk.layout
  · rw [hint.fs]
    exact h.filesOk.mounted
  · rw [hint.inUse, hpid]
    exact h.inUse
  · refine (h.views d hd).keep hslots ⟨k.fs.currDir, hint.fs⟩ ?_
    rw [Kernel.fdt, hpid, hint.fdt, Kernel.fdt]
  · rw [hint.fs]
    exact h.cursor
  · rw [hpid, (hint.args k.pidCounter h.inUse).2]
    exact h.args

theorem Sees.interrupts {I : Kernel → Kernel → Prop} (hI : ∀ k k', I k k' → Interrupt k k')
    (h : Sees files inodes blocks ⟨k, printed⟩ os) (hint : Relation.ReflTransGen I k k') :
    Sees files inodes blocks ⟨k', printed⟩ os :=
  h.interrupted (interrupts_interrupted (Relation.ReflTransGen.mono hI k k' hint))

/-- A call, and what is to be shown of it. -/
theorem Sees.next {printed' : List UInt8} (h : Sees files inodes blocks ⟨k, printed⟩ os) (honly : CallsOnly k k')
    (hslots : SlotsOk k') (hviews : ∀ d : Fin 8, 2 ≤ d.val → ViewOf k' d (os'.views d))
    (hcursor : k'.fs.currDir = os'.cursor.val)
    (hargs : ∀ i < 1024, (k'.allPcbs k.pidCounter).args i = cString os'.args i) (hout : printed' = os'.out) :
    Sees files inodes blocks ⟨k', printed'⟩ os' := by
  obtain ⟨n, hn⟩ := honly.fs
  refine ⟨⟨hslots, ?_, ?_⟩, ?_, hviews, hcursor, ?_, hout⟩
  · rw [hn]
    exact h.filesOk.layout
  · rw [hn]
    exact h.filesOk.mounted.currDir n
  · rw [honly.inUse, honly.pidCounter]
    exact h.inUse
  · rw [honly.pidCounter]
    exact hargs

/-- The arguments of a call that leaves them alone. -/
theorem Sees.argsKept (h : Sees files inodes blocks ⟨k, printed⟩ os) (hargs : ArgsKept k.pidCounter k k') :
    ∀ i < 1024, (k'.allPcbs k.pidCounter).args i = cString os.args i := by
  rw [(hargs h.inUse).2]
  exact h.args

/-- A call that changes no slot. -/
private theorem Sees.sameSlots {printed' : List UInt8} (h : Sees files inodes blocks ⟨k, printed⟩ os)
    (honly : CallsOnly k k') (hslots : SlotsOk k') (hkept : ArgsKept k.pidCounter k k') (hfdt : k'.fdt = k.fdt)
    (hviews : os'.views = os.views) (hargs : os'.args = os.args) (hcursor : k'.fs.currDir = os'.cursor.val)
    (hout : printed' = os'.out) : Sees files inodes blocks ⟨k', printed'⟩ os' := by
  refine h.next honly hslots (fun d hd => ?_) hcursor ?_ hout
  · rw [hviews]
    exact (h.views d hd).keep hslots honly.fs (congrFun hfdt d)
  · rw [hargs]
    exact h.argsKept hkept

/-- A call that changes one slot. -/
private theorem Sees.oneSlot {e : FdTable} (h : Sees files inodes blocks ⟨k, printed⟩ os) (honly : CallsOnly k k')
    (hslots : SlotsOk k') (hkept : ArgsKept k.pidCounter k k') (hfdt : k'.fdt = Function.update k.fdt d e)
    (hview : ViewOf k' d v) (hviews : os'.views = Function.update os.views d v) (hargs : os'.args = os.args)
    (hcursor : k'.fs.currDir = os'.cursor.val) (hout : os'.out = os.out) :
    Sees files inodes blocks ⟨k', printed⟩ os' := by
  refine h.next honly hslots (fun c hc => ?_) hcursor ?_ (h.out.trans hout.symm)
  · rw [hviews]
    by_cases hcd : c = d
    · subst hcd
      rw [Function.update_self]
      exact hview
    · rw [Function.update_of_ne hcd]
      refine (h.views c hc).keep hslots honly.fs ?_
      rw [hfdt, Function.update_of_ne hcd]
  · rw [hargs]
    exact h.argsKept hkept

/-- The view of a descriptor is that of its slot. -/
theorem Sees.view (h : Sees files inodes blocks ⟨k, printed⟩ os) {fd : Int} (hfd : 2 ≤ fd ∧ fd < 8) :
    ViewOf k (fdIndex fd) (os.view fd) := by
  rw [Os.view, if_pos hfd]
  have hval := fdIndex_val ⟨by omega, hfd.2⟩
  exact h.views _ (by omega)

/-! #### Opening -/

/-- The least descriptor that is not open. -/
theorem Sees.free (h : Sees files inodes blocks ⟨k, printed⟩ os) : freeFd k.fdt = os.free := by
  have hslot : ∀ d : Fin 8, 2 ≤ d.val → (!(k.fdt d).exists_) = (os.views d).isNone := by
    intro d hd
    rw [(h.views d hd).isSome]
    cases os.views d <;> rfl
  unfold freeFd Os.free
  refine List.find?_congr fun d hd => hslot d ?_
  fin_cases hd <;> simp

/-- The position in the directory after an opening. -/
private theorem sysOpen_cursor {filename : Nat → UInt8} {r : Int} (hslots : SlotsOk k) {i : Nat}
    (hnames : Names k.fs filename i) (hopen : sysOpen k filename = some (k', r)) (hr : r ≠ -1) :
    k'.fs.currDir =
      if (k.fs.bootBlockMain.direntries i).filetype = 1 ∧ filename 0 = 0x2E then 0 else k.fs.currDir := by
  obtain ⟨hfiletype, -, hfound⟩ := readDentryByName_some (findDentry_eq_some_iff.2 hnames) hslots.dirCount emptyDentry
  have htypes := hslots.types i hnames.1
  generalize hentry : readDentryByName k.fs filename emptyDentry = entry at hfiletype hfound
  rw [← hfiletype] at htypes ⊢
  unfold sysOpen at hopen
  dsimp only at hopen
  rw [hentry, if_neg hfound] at hopen
  cases hfree : freeFd k.fdt with
  | none =>
    rw [hfree, Option.some.injEq, Prod.mk.injEq] at hopen
    exact absurd hopen.2.symm hr
  | some d =>
    have hcurr := dirOpen_currDir k.fs hslots.dirIsOpen filename
    rcases htypes with hzero | hone | htwo
    · simp only [hfree, setFd_fdt, Function.update_self, fopOfType, hzero, if_true, fopOpen, Option.map_some,
        Option.some.injEq, Prod.mk.injEq] at hopen
      obtain ⟨rfl, -⟩ := hopen
      simp [hzero, Kernel.setFd]
    · simp only [hfree, setFd_fdt, Function.update_self, fopOfType, hone, if_true, fopOpen, Option.map_some,
        Option.some.injEq, Prod.mk.injEq, if_neg (show ¬(1 : Int) = 0 by decide)] at hopen
      obtain ⟨rfl, -⟩ := hopen
      simp only [hone, true_and]
      exact hcurr
    · simp only [hfree, setFd_fdt, Function.update_self, fopOfType, htwo, if_true, fopOpen, Option.map_some,
        Option.some.injEq, Prod.mk.injEq, if_neg (show ¬(2 : Int) = 0 by decide),
        if_neg (show ¬(2 : Int) = 1 by decide)] at hopen
      obtain ⟨rfl, -⟩ := hopen
      simp [htwo, Kernel.setFd]

/-- Two least free descriptors are the same. -/
private theorem least_unique {fdt : Fin 8 → FdTable} {d e : Fin 8} (hd : freeFd fdt = some d)
    (he : 2 ≤ e.val ∧ openFiles fdt e = none ∧ ∀ c : Fin 8, 2 ≤ c.val → c < e → openFiles fdt c ≠ none) : e = d := by
  obtain ⟨hd₂, hdclosed, hdleast⟩ := freeFd_eq_some hd
  rcases lt_trichotomy e d with hlt | heq | hgt
  · exact absurd he.2.1 (hdleast e he.1 hlt)
  · exact heq
  · exact absurd hdclosed (he.2.2 d hd₂ hgt)

/-- An opening of the file `f`. -/
private theorem Sees.opens {filename : List UInt8} {pointer : Nat → UInt8} {i : Nat} {f : File} {e : Fin 8}
    (h : Sees files inodes blocks ⟨k, printed⟩ os) (hname : IsString pointer filename) (hget : files[i]? = some f)
    (hf : f.name = filename.take 32) (hnames : Names k.fs pointer i) (hfree : os.free = some d)
    (hopens : Opens k pointer (k.fs.bootBlockMain.direntries i) k' e) (hslots : SlotsOk k') :
    e = d ∧ Sees files inodes blocks ⟨k', printed⟩ ((os.setView d (some (.of f))).moveTo
      (if f.filetype = 1 ∧ filename.head? = some 0x2E then 0 else os.cursor)) := by
  obtain rfl : e = d := least_unique (h.free.trans hfree) hopens.least
  obtain ⟨-, htype, -⟩ := h.filesOk.layout.dentry h.filesOk.mounted hget
  have hr : (e.val : Int) ≠ -1 := by omega
  have hslotAt := fun c hc => (h.views c hc).keep hslots hopens.only.fs
  refine ⟨rfl, h.next hopens.only hslots (fun c hc => ?_) ?_ (h.argsKept (sysOpen_argsKept hopens.result)) h.out⟩
  · rw [Os.moveTo_views, Os.setView_views]
    by_cases hce : c = e
    · subst hce
      rw [Function.update_self]
      obtain ⟨fop, hmatch, hadded⟩ := hopens.added
      have hslot := congrFun hadded c
      rw [Function.update_self, openFiles] at hslot
      split at hslot
      · next hexists =>
        rw [Option.some.injEq, Descriptor.mk.injEq] at hslot
        have hle := f.filetypeLe
        rw [htype] at hmatch
        unfold View.of
        by_cases htwo : f.filetype = 2
        · rw [if_pos htwo]
          have hsame := (sameName_take_iff hname f.nameBytes f.nameLength.2).2 hf
          obtain ⟨d', hd', hreads⟩ := sysOpen_readsAt h.filesOk.layout h.filesOk.mounted h.filesOk.slots
            (List.mem_of_getElem? hget) htwo hsame hopens.result hr
          obtain rfl : c = d' := Fin.ext (by omega)
          exact hreads
        · rw [if_neg htwo]
          by_cases hone : f.filetype = 1
          · rw [if_pos hone]
            exact ⟨hexists, hslot.1.trans (by rcases hmatch with hm | hm | hm <;> [omega; exact hm.2; omega])⟩
          · rw [if_neg hone]
            exact ⟨hexists, hslot.1.trans (by rcases hmatch with hm | hm | hm <;> [exact hm.2; omega; omega])⟩
      · cases hslot
    · rw [Function.update_of_ne hce]
      exact hslotAt c hc (hopens.records c hce)
  · have hcurr := sysOpen_cursor h.filesOk.slots hnames hopens.result hr
    have hfirst : pointer 0 = 0x2E ↔ filename.head? = some 0x2E := by
      rw [hname.spelled 0 (Nat.zero_le _)]
      cases filename with
      | nil => exact ⟨fun hzero => absurd hzero (by decide), fun hnone => by cases hnone⟩
      | cons c filename => simp [cString]
    rw [htype] at hcurr
    rw [Os.moveTo_cursor]
    by_cases hdot : f.filetype = 1 ∧ filename.head? = some 0x2E
    · rw [hcurr, if_pos hdot, if_pos ⟨by omega, hfirst.2 hdot.2⟩]
      rfl
    · rw [hcurr, if_neg hdot, if_neg fun hboth => hdot ⟨by omega, hfirst.1 hboth.2⟩]
      exact h.cursor

/-- `sys_open`. -/
theorem Sees.open_ {filename : List UInt8} {pointer : Nat → UInt8} (h : Sees files inodes blocks ⟨k, printed⟩ os)
    (hname : IsString pointer filename) :
    ∃ k', sysOpen k pointer = some (k', (os.open_ filename).2) ∧
      Sees files inodes blocks ⟨k', printed⟩ (os.open_ filename).1 := by
  have hdirectory := h.filesOk.layout.directory h.filesOk.mounted
  unfold Os.open_
  cases hfind : files.find? fun f => f.name = filename.take 32 with
  | none =>
    have hnone : ∀ i, ¬Names k.fs pointer i := by
      intro i hi
      have hget := (hdirectory.findDentry_eq hname).1 (findDentry_eq_some_iff.2 hi)
      rw [List.getElem?_map, Option.map_eq_some_iff] at hget
      obtain ⟨f, hf, hsame⟩ := hget
      simpa [hsame] using List.find?_eq_none.1 hfind f (List.mem_of_getElem? hf)
    exact ⟨k, sysOpen_none h.filesOk.slots (.inl hnone), h⟩
  | some f =>
    cases hfree : os.free with
    | none =>
      have hfull : Full k.fdt := freeFd_eq_none.1 (h.free.trans hfree)
      exact ⟨k, sysOpen_none h.filesOk.slots (.inr hfull), h⟩
    | some d =>
      have hf : f.name = filename.take 32 := by simpa using List.find?_some hfind
      obtain ⟨i, hi⟩ := List.mem_iff_getElem?.1 (List.mem_of_find?_eq_some hfind)
      have hnames : Names k.fs pointer i := by
        refine findDentry_eq_some_iff.1 ((hdirectory.findDentry_eq hname).2 ?_)
        rw [List.getElem?_map, hi, ← hf]
        rfl
      have hroom : ¬Full k.fdt := by
        rw [← freeFd_eq_none, h.free, hfree]
        simp
      obtain ⟨k', e, hopens, hslots⟩ := sysOpen_some h.filesOk.slots hnames hroom
      obtain ⟨rfl, hsees⟩ := h.opens hname hi hf hnames hfree hopens hslots
      exact ⟨k', hopens.result, hsees⟩

/-! #### Reading -/

/-- A descriptor that is not open. -/
private theorem Sees.not_open {fd : Int} (h : Sees files inodes blocks ⟨k, printed⟩ os) (hzero : fd ≠ 0) (hone : fd ≠ 1)
    (hview : os.view fd = none) : ¬(0 ≤ fd ∧ fd < 8 ∧ openFiles k.fdt (fdIndex fd) ≠ none) := by
  rintro ⟨hlo, hhi, hopen⟩
  have hslot := h.view (show 2 ≤ fd ∧ fd < 8 by omega)
  rw [hview] at hslot
  exact hopen (openFiles_eq_none.2 hslot)

private theorem Os.view_range {fd : Int} {w : View} (h : os.view fd = some w) : 2 ≤ fd ∧ fd < 8 := by
  unfold Os.view at h
  split at h
  · assumption
  · cases h

/-- A read of an open descriptor. -/
private theorem sysRead_fop {fd : Int} (hfd : 2 ≤ fd ∧ fd < 8) (hexists : (k.fdt (fdIndex fd)).exists_ = true)
    (buf : Nat → UInt8) (nbytes : Int) :
    sysRead k fd (some buf) nbytes = fopRead k (fdIndex fd) nbytes (k.fdt (fdIndex fd)).fop_ := by
  have hrange : ¬(fd < 0 ∨ fd ≥ 8 ∨ fd = 1) := by omega
  simp only [sysRead, hrange, hexists, Bool.true_eq_false, if_false]

/-- The directory after an entry has been read. -/
theorem val_add_one {n : Nat} (i : Fin (n + 1)) : (i + 1).val = if i.val < n then i.val + 1 else 0 := by
  have hlt := i.isLt
  rw [Fin.val_add, Fin.val_one', Nat.add_mod_mod]
  split
  · exact Nat.mod_eq_of_lt (by omega)
  · rw [show i.val = n by omega, Nat.mod_self]

/-- `sys_read` of a descriptor other than the keyboard. -/
theorem Sees.read (h : Sees files inodes blocks ⟨k, printed⟩ os) (buf : Nat → UInt8) {fd nbytes : Int} (hfd : fd ≠ 0)
    (hn : 0 ≤ nbytes) (hmax : nbytes < 2147483648) :
    ∃ k', sysRead k fd (some buf) nbytes = some (k', (os.read fd nbytes).2) ∧
      Sees files inodes blocks ⟨k', printed⟩ (os.read fd nbytes).1 := by
  have hslots := h.filesOk.slots
  unfold Os.read
  cases hview : os.view fd with
  | none =>
    have hfails : ¬(Readable k fd ∧ some buf ≠ none) := by
      rintro ⟨⟨hlo, hhi, hone, hopen⟩, -⟩
      exact h.not_open hfd hone hview ⟨hlo, hhi, hopen⟩
    exact ⟨k, sysRead_fails hfails nbytes, h⟩
  | some w =>
    have hrange := Os.view_range hview
    have hslot := h.view hrange
    rw [hview] at hslot
    have hread := sysRead_fop hrange hslot.exists buf nbytes
    rw [hslot.fop] at hread
    have hkept := fun k' r stored (hr : sysRead k fd (some buf) nbytes = some (k', r, stored)) =>
      sysRead_argsKept (p := k.pidCounter) hr
    cases w with
    | clock =>
      obtain ⟨-, honly, hok⟩ := sysRead_position hslots hread
      exact ⟨_, hread, h.sameSlots honly hok (hkept _ _ _ hread) rfl rfl rfl h.cursor h.out⟩
    | directory =>
      obtain ⟨-, honly, hok⟩ := sysRead_position hslots hread
      have hlt := os.cursor.isLt
      have hcurr : k.fs.currDir = os.cursor.val := h.cursor
      have hle : k.fs.currDir ≤ files.length := by omega
      obtain ⟨hentry, hnext⟩ := dirRead_spec h.filesOk.layout h.filesOk.mounted hslots.dirIsOpen hle
      rw [hcurr] at hentry hnext
      have hresult : (listing files).getD os.cursor.val (0, []) = (dirRead k.fs).2 := by
        rw [List.getD_eq_getElem?_getD, hentry]
        rfl
      dsimp only
      rw [hresult]
      exact ⟨_, hread, h.sameSlots honly hok (hkept _ _ _ hread) rfl rfl rfl (hnext.trans (val_add_one _).symm) h.out⟩
    | file r =>
      have hval := fdIndex_val ⟨by omega, hrange.2⟩
      have hreads : ReadsAt (fdIndex fd) k r := hslot
      have hcursor : ∀ k' result stored, sysRead k fd (some buf) nbytes = some (k', result, stored) →
          k'.fs.currDir = k.fs.currDir := by
        intro k' result stored hr
        rw [hread] at hr
        simp only [View.fop, fopRead, fileReadHelper, hslot.exists, if_true, Option.some.injEq, Prod.mk.injEq] at hr
        rw [← hr.1]
        rfl
      obtain ⟨k', result, stored, hr⟩ : ∃ k' result stored,
          sysRead k fd (some buf) nbytes = some (k', result, stored) := by
        rw [hread]
        exact ⟨_, _, _, rfl⟩
      obtain ⟨⟨m, hfdt⟩, honly, hok⟩ := sysRead_position hslots hr
      have hindexed := hr
      rw [← hval] at hindexed
      obtain ⟨rfl, rfl, hnext⟩ := hreads.read hn hmax hindexed
      have hslot' : ViewOf k' (fdIndex fd) (some (.file (r.next nbytes.toNat))) := hnext
      exact ⟨k', hr, h.oneSlot honly hok (hkept _ _ _ hr) hfdt hslot' rfl rfl ((hcursor _ _ _ hr).trans h.cursor) rfl⟩

/-- What the keyboard's read returns is a line. -/
private theorem terminalRead_keyboardLine {nbytes r : Int} {stored : List UInt8} (hn : 0 ≤ nbytes)
    (h : terminalRead k nbytes = some (k', r, stored)) : Os.KeyboardLine nbytes (r, stored) := by
  obtain ⟨-, ⟨-, -, rfl, rfl⟩ | ⟨count, -, hline, -, rfl, -, rfl⟩⟩ := terminalRead_cases h
  · exact .inl rfl
  · obtain ⟨-, -, hchars⟩ := lineLengthFrom_some hline
    refine .inr ⟨by omega, by omega, by simp; omega, fun c hc => ?_⟩
    obtain ⟨i, hi, rfl⟩ := List.mem_iff_getElem.1 hc
    rw [List.length_take] at hi
    simp only [List.getElem_take, List.getElem_map, List.getElem_range]
    exact hchars i (Nat.zero_le _) (by omega)

/-- `sys_read` of the keyboard. -/
theorem Sees.readKeyboard {nbytes r : Int} {buf : Nat → UInt8} {stored : List UInt8}
    (h : Sees files inodes blocks ⟨k, printed⟩ os) (hn : 0 ≤ nbytes)
    (hread : sysRead k 0 (some buf) nbytes = some (k', r, stored)) :
    Os.KeyboardLine nbytes (r, stored) ∧ Sees files inodes blocks ⟨k', printed⟩ os := by
  obtain ⟨hexists, hfop⟩ := h.filesOk.slots.running.std 0 (by decide)
  have hterminal : sysRead k 0 (some buf) nbytes = terminalRead k nbytes := by
    have hindex : fdIndex 0 = 0 := rfl
    simp [sysRead, hindex, hexists, hfop, fopRead]
  obtain ⟨-, honly, hok⟩ := sysRead_position h.filesOk.slots hread
  have hkept := sysRead_argsKept (p := k.pidCounter) hread
  rw [hterminal] at hread
  have hpcbs := (terminalRead_pcbs hread).2
  have hfs : k'.fs = k.fs := by
    obtain ⟨-, ⟨-, rfl, -⟩ | ⟨count, -, -, rfl, -⟩⟩ := terminalRead_cases hread <;> rfl
  refine ⟨terminalRead_keyboardLine hn hread, h.sameSlots honly hok hkept ?_ rfl rfl ?_ h.out⟩
  · rw [Kernel.fdt, hpcbs, honly.pidCounter, Kernel.fdt]
  · rw [hfs]
    exact h.cursor

/-! #### Writing, closing, and the arguments -/

/-- A write to an open descriptor. -/
private theorem sysWrite_fop {fd : Int} (hfd : 1 ≤ fd ∧ fd < 8) (hexists : (k.fdt (fdIndex fd)).exists_ = true)
    (buf : Nat → UInt8) (nbytes : Int) :
    sysWrite k fd (some buf) nbytes = fopWrite k buf nbytes (k.fdt (fdIndex fd)).fop_ := by
  have hrange : ¬(fd ≤ 0 ∨ fd ≥ 8) := by omega
  simp only [sysWrite, hrange, hexists, Bool.true_eq_false, if_false]

/-- The four bytes at the start of the buffer. -/
theorem HasBytes.int32At {buf : Nat → UInt8} {bytes : List UInt8} (h : HasBytes buf bytes)
    (hlength : bytes.length = 4) :
    int32At buf = BigChungOS.int32At (cString bytes) := by
  have hbyte : ∀ i < 4, buf i = cString bytes i := by
    intro i hi
    have hget : ((List.range bytes.length).map buf)[i]? = bytes[i]? := congrArg (·[i]?) h
    rw [List.getElem?_map, List.getElem?_range (by omega), Option.map_some] at hget
    rw [cString, List.getD_eq_getElem?_getD, ← hget]
    rfl
  unfold BigChungOS.int32At
  rw [hbyte 0 (by decide), hbyte 1 (by decide), hbyte 2 (by decide), hbyte 3 (by decide)]

private theorem rtcWrite_result {buf : Nat → UInt8} {bytes : List UInt8} (r : Rtc) (h : HasBytes buf bytes) :
    (rtcWrite r (some buf) bytes.length).2 = Os.clockWrite bytes := by
  unfold rtcWrite Os.clockWrite
  dsimp only
  by_cases hlength : bytes.length = 4
  · rw [h.int32At hlength, if_neg (by omega)]
    generalize int32At (cString bytes) = freq
    by_cases hpower : (BitVec.ofInt 32 freq &&& BitVec.ofInt 32 (freq - 1)) = 0
    · by_cases hle : freq ≤ 1024
      · rw [if_neg (by simp [hpower]; omega), if_pos ⟨hlength, hpower, hle⟩]
        rfl
      · rw [if_pos (.inr (by omega)), if_neg fun hall => hle hall.2.2]
    · rw [if_pos (.inl hpower), if_neg fun hall => hpower hall.2.1]
  · rw [if_pos (by omega), if_neg fun hall => hlength hall.1]

/-- `sys_write`. -/
theorem Sees.write (h : Sees files inodes blocks ⟨k, printed⟩ os) (fd : Int) {buf : Nat → UInt8} {bytes : List UInt8}
    (hbuf : HasBytes buf bytes) :
    ∃ k', sysWrite k fd (some buf) bytes.length = some (k', (os.write fd bytes).2) ∧
      Sees files inodes blocks ⟨k', printed ++ printedBy k fd bytes⟩ (os.write fd bytes).1 := by
  have hslots := h.filesOk.slots
  have hstep : ∀ {k' r}, sysWrite k fd (some buf) bytes.length = some (k', r) → CallsOnly k k' ∧ SlotsOk k' ∧
      ArgsKept k.pidCounter k k' ∧ k'.fdt = k.fdt := by
    intro k' r hwrite
    obtain ⟨honly, hpcbs⟩ := sysWrite_pcbs hwrite
    have hfdt : k'.fdt = k.fdt := by rw [Kernel.fdt, hpcbs, honly.pidCounter, Kernel.fdt]
    exact ⟨honly, h.filesOk.slots.call honly (hfdt ▸ hslots.running), sysWrite_argsKept hwrite, hfdt⟩
  unfold Os.write
  by_cases hone : fd = 1
  · subst hone
    obtain ⟨hexists, hfop⟩ := hslots.running.std 1 (by decide)
    have hwrite := sysWrite_fop (show 1 ≤ (1 : Int) ∧ (1 : Int) < 8 by decide) hexists buf bytes.length
    have hindex : fdIndex 1 = 1 := rfl
    rw [hindex, hfop] at hwrite
    obtain ⟨honly, hok, hkept, hfdt⟩ := hstep hwrite
    have hcursor : (terminalWrite k buf bytes.length).1.fs = k.fs := by
      rw [terminalWrite, puts_eq]
    refine ⟨_, hwrite, h.sameSlots honly hok hkept hfdt rfl rfl ((congrArg _ hcursor).trans h.cursor) ?_⟩
    rw [printedBy, hindex, if_pos ⟨by decide, by decide, hexists, hfop⟩]
    exact congrArg (· ++ bytes) h.out
  · rw [if_neg hone]
    cases hview : os.view fd with
    | none =>
      have hfails : ¬(Writable k fd ∧ some buf ≠ none) := by
        rintro ⟨⟨hlo, hhi, hopen⟩, -⟩
        exact h.not_open (by omega) hone hview ⟨by omega, hhi, hopen⟩
      have hnothing : printedBy k fd bytes = [] := by
        refine if_neg ?_
        rintro ⟨hlo, hhi, hexists, -⟩
        exact h.not_open (by omega) hone hview ⟨by omega, hhi, by rw [Ne, openFiles_eq_none, hexists]; simp⟩
      rw [hnothing, List.append_nil]
      exact ⟨k, sysWrite_fails hfails _, h⟩
    | some w =>
      have hrange := Os.view_range hview
      have hslot := h.view hrange
      rw [hview] at hslot
      have hwrite := sysWrite_fop ⟨by omega, hrange.2⟩ hslot.exists buf bytes.length
      have hnothing : printedBy k fd bytes = [] := by
        refine if_neg ?_
        rintro ⟨-, -, -, hfop⟩
        rw [hslot.fop] at hfop
        cases w <;> cases hfop
      rw [hslot.fop] at hwrite
      rw [hnothing, List.append_nil]
      cases w with
      | file r | directory => exact ⟨k, hwrite, h⟩
      | clock =>
        obtain ⟨honly, hok, hkept, hfdt⟩ := hstep hwrite
        rw [← rtcWrite_result k.rtc hbuf]
        exact ⟨_, hwrite, h.sameSlots honly hok hkept hfdt rfl rfl h.cursor h.out⟩

/-- The position in the directory after a close. -/
private theorem sysClose_cursor {fd : Int} (hfd : 2 ≤ fd ∧ fd < 8) (hexists : (k.fdt (fdIndex fd)).exists_ = true) :
    (sysClose k fd).1.fs.currDir = if (k.fdt (fdIndex fd)).fop_ = .dir then 0 else k.fs.currDir := by
  have hrange : ¬(fd ≤ 1 ∨ fd ≥ 8) := by omega
  simp only [sysClose, hrange, hexists, if_true, if_false]
  cases hfop : (k.fdt (fdIndex fd)).fop_ with
  | file => simp [fopClose, fileCloseHelper, hexists, Kernel.setFd]
  | dir => rfl
  | null | rtc | terminal => rfl

/-- `sys_close`. -/
theorem Sees.close {fd : Int} (h : Sees files inodes blocks ⟨k, printed⟩ os) :
    (sysClose k fd).2 = (os.close fd).2 ∧ Sees files inodes blocks ⟨(sysClose k fd).1, printed⟩ (os.close fd).1 := by
  have hslots := h.filesOk.slots
  unfold Os.close
  cases hview : os.view fd with
  | none =>
    have hfails : ¬Closable k fd := by
      rintro ⟨hlo, hhi, hopen⟩
      exact h.not_open (by omega) (by omega) hview ⟨by omega, hhi, hopen⟩
    rw [sysClose_fails hfails]
    exact ⟨rfl, h⟩
  | some w =>
    have hrange := Os.view_range hview
    have hslot := h.view hrange
    rw [hview] at hslot
    have hopen : openFiles k.fdt (fdIndex fd) ≠ none := by
      rw [Ne, openFiles_eq_none, hslot.exists]
      simp
    obtain ⟨hzero, hfdt⟩ := sysClose_fdt hslots.running ⟨hrange.1, hrange.2, hopen⟩
    have hclosed : ViewOf (sysClose k fd).1 (fdIndex fd) none := by
      rw [ViewOf, hfdt, Function.update_self]
    have hcursor := sysClose_cursor hrange hslot.exists
    rw [hslot.fop] at hcursor
    have honly := sysClose_filesOnly k fd
    cases w with
    | directory =>
      exact ⟨hzero, h.oneSlot honly.callsOnly (sysClose_slotsOk hslots fd) honly.argsKept hfdt hclosed rfl rfl hcursor
        rfl⟩
    | file r | clock =>
      exact ⟨hzero, h.oneSlot honly.callsOnly (sysClose_slotsOk hslots fd) honly.argsKept hfdt hclosed rfl rfl
        (hcursor.trans h.cursor) rfl⟩

/-- `sys_getargs`. -/
theorem Sees.getargs {nbytes : Int} (h : Sees files inodes blocks ⟨k, printed⟩ os) (hn : 0 ≤ nbytes)
    (hmax : nbytes ≤ 1024) :
    ∃ k' g, sysGetargs k nbytes = some (k', g) ∧
      (os.getargs nbytes).2 = (g.result, (g.stores.take nbytes.toNat).map Prod.snd) ∧
      Sees files inodes blocks ⟨k', printed⟩ (os.getargs nbytes).1 := by
  have hfirst : (k.allPcbs k.pidCounter).args 0 = cString os.args 0 := h.args 0 (by decide)
  unfold Os.getargs
  by_cases hnone : os.args = []
  · rw [if_pos hnone]
    rw [hnone] at hfirst
    have hzero : (k.allPcbs k.pidCounter).args 0 = 0 := hfirst
    refine ⟨k, { result := -1, loads := [0], stores := [] }, ?_, by simp, h⟩
    unfold sysGetargs
    dsimp only
    rw [if_pos hzero]
  · rw [if_neg hnone]
    have hne : (k.allPcbs k.pidCounter).args 0 ≠ 0 := by
      rw [hfirst]
      exact (cString_ne_zero os.argsBytes).2 (List.length_pos_iff.2 hnone)
    refine ⟨_, _, sysGetargs_eq hne hn, ?_, ?_⟩
    · have hlength : ((List.range nbytes.toNat).map fun i : Nat =>
          ((i : Int), (k.allPcbs k.pidCounter).args i)).length = nbytes.toNat := by simp
      dsimp only
      rw [List.take_left' hlength, List.map_map]
      refine congrArg (Prod.mk 0) (List.map_congr_left fun i hi => ?_)
      have hlt := List.mem_range.1 hi
      exact (h.args i (by omega)).symm
    · have hpid : (clearArgs k).pidCounter = k.pidCounter := rfl
      have hpcb : ∀ p ≠ k.pidCounter, (clearArgs k).allPcbs p = k.allPcbs p := by
        intro p hp
        rw [clearArgs, setPcb_allPcbs, Function.update_of_ne hp]
      have hinUse : (clearArgs k).inUse = k.inUse := by
        funext p
        by_cases hp : p = k.pidCounter
        · subst hp
          simp [clearArgs, Kernel.inUse]
        · rw [Kernel.inUse, hpcb p hp, Kernel.inUse]
      have hfdt : (clearArgs k).fdt = k.fdt := by simp [clearArgs, Kernel.fdt]
      have honly : CallsOnly k (clearArgs k) := ⟨⟨k.fs.currDir, rfl⟩, rfl, rfl, hinUse, hpcb⟩
      have hok : SlotsOk (clearArgs k) := h.filesOk.slots.call honly (hfdt ▸ h.filesOk.slots.running)
      refine h.next honly hok (fun d hd => ?_) h.cursor (fun i hi => ?_) h.out
      · exact (h.views d hd).keep hok honly.fs (congrFun hfdt d)
      · -- the first 32 bytes are cleared, and behind them there was nothing
        have hcleared : ((clearArgs k).allPcbs k.pidCounter).args i =
            if i < 32 then 0 else (k.allPcbs k.pidCounter).args i := by simp [clearArgs]
        have hempty : cString ([] : List UInt8) i = 0 := by simp [cString]
        have hlength := os.argsLength
        dsimp only
        rw [hcleared, Os.noArgs_args, hempty]
        split
        · rfl
        · rw [h.args i hi]
          exact List.getD_eq_default _ _ (by omega)

/-! #### The other calls -/

/-- `sys_vidmap`. -/
theorem Sees.vidmap {screenStart : Nat} (h : Sees files inodes blocks ⟨k, printed⟩ os)
    (hfits : ¬(0x83FFFFD ≤ screenStart ∧ screenStart ≤ 0x8400000)) :
    ∃ k' r, sysVidmap k screenStart = some (k', r) ∧
      Os.VideoPage screenStart (r, if r = 0 then span (k'.userMem k'.pidCounter) (screenStart - 0x8000000) 4 else []) ∧
      Sees files inodes blocks ⟨k', printed⟩ os := by
  unfold sysVidmap Os.VideoPage
  by_cases hin : 0x8000000 ≤ screenStart ∧ screenStart < 0x8400000
  · rw [if_neg (by omega), if_neg (by omega)]
    refine ⟨_, _, rfl, (if_pos hin).mpr ⟨rfl, k.onScreen, ?_⟩, ?_⟩
    · rw [if_pos rfl]
      dsimp only
      rw [Function.update_self]
      exact span_storeAt _ _ (wordBytes (0x8400000 + termPage k.onScreen))
    · have hslots := h.filesOk.slots
      have honly : CallsOnly k { k with userMem := Function.update k.userMem k.pidCounter (storeAt
          (k.userMem k.pidCounter) (screenStart - 0x8000000) (wordBytes (0x8400000 + termPage k.onScreen))) } :=
        ⟨⟨k.fs.currDir, rfl⟩, rfl, rfl, rfl, fun _ _ => rfl⟩
      exact h.sameSlots honly (hslots.call honly hslots.running) (argsKept_of_pcb rfl) rfl rfl rfl h.cursor h.out
  · rw [if_pos (by omega)]
    exact ⟨_, _, rfl, (if_neg hin).mpr rfl, h⟩

/-- The numbers without a call. -/
theorem otherCall_eq {eax : Nat} : otherCall eax = some (-1) ↔ ¬(1 ≤ eax ∧ eax ≤ 8) ∧ eax ≠ 11 := by
  unfold otherCall sysSetHandler sysSigreturn
  split_ifs with hnine hten hrefused
  · exact iff_of_true rfl (by omega)
  · exact iff_of_true rfl (by omega)
  · exact iff_of_true rfl (by omega)
  · exact iff_of_false (by simp) (by omega)

end Step

end BigChungOS
