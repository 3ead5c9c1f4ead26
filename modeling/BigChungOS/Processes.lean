import BigChungOS.Lib.Slots
import BigChungOS.Sched

/-!
# What `sys_execute` and `sys_halt` do to the kernel state

Each of the ways the two calls end is described once, by a structure that relates the states before and after:
`Failed`, `Launched` and `Faulted` for `sys_execute`, `HaltReturned` for the end of `sys_halt`, and `HaltEnded` for
the ways that lead there.  Whether `sys_execute` fails, launches or faults is decided by the PCB table and by
`execOutcome`, a function of the file system and the command.

With these, a failed `sys_execute` is invisible exactly when `prev_pid` already was the caller
(`failed_execute_invisible_iff`): every exit restores what it changed except `prev_pid`.
-/

namespace BigChungOS

open Memory

/-! ### The stack of processes of a terminal -/

namespace TerminalT

/-- `++curr_process; procs[curr_process] = pid`. -/
def push (t : TerminalT) (pid : Fin 6) : TerminalT :=
  { t with currProcess := t.currProcess + 1 }.setProc (t.currProcess + 1) pid.val

/-- `procs[curr_process] = -1; --curr_process`. -/
def pop (t : TerminalT) : TerminalT :=
  let t := t.setProc t.currProcess (-1)
  { t with currProcess := t.currProcess - 1 }

/-- `procs[curr_process]`. -/
def top (t : TerminalT) : Int := t.proc t.currProcess

/-- A push inside the array. -/
theorem push_eq (t : TerminalT) (pid : Fin 6) (h : t.currProcess ≠ 5) :
    t.push pid = { t with
      currProcess := t.currProcess + 1, procs := Function.update t.procs (t.currProcess + 1) pid.val } :=
  if_neg (by omega)

/-- The push behind the array overwrites `curr_process`. -/
theorem push_full (t : TerminalT) (pid : Fin 6) (h : t.currProcess = 5) :
    t.push pid = { t with currProcess := pid.val } := by
  simp [push, setProc, h]

/-- A pop inside the array. -/
theorem pop_eq (t : TerminalT) (h : t.currProcess ≠ 6) :
    t.pop = { t with
      procs := Function.update t.procs t.currProcess (-1), currProcess := t.currProcess - 1 } := by
  unfold pop setProc
  rw [if_neg h]

theorem top_eq (t : TerminalT) (h : t.currProcess ≠ 6) : t.top = t.procs t.currProcess := if_neg h

/-- A push changes the stack only. -/
private theorem push_rest (t : TerminalT) (pid : Fin 6) :
    ∃ procs currProcess, t.push pid = { t with procs := procs, currProcess := currProcess } := by
  by_cases h : t.currProcess = 5
  · exact ⟨t.procs, _, t.push_full pid h⟩
  · exact ⟨_, _, t.push_eq pid h⟩

/-- So does a pop. -/
theorem pop_rest (t : TerminalT) :
    ∃ procs currProcess, t.pop = { t with procs := procs, currProcess := currProcess } := by
  unfold pop setProc
  split
  · exact ⟨t.procs, _, rfl⟩
  · exact ⟨_, _, rfl⟩

end TerminalT

/-- `in_use` of a process. -/
def Kernel.inUse (k : Kernel) (p : Fin 6) : Bool := (k.allPcbs p).inUse

theorem getFreePcb_eq_some {k : Kernel} {p : Fin 6} (h : getFreePcb k = some p) :
    k.inUse p = false ∧ ∀ q < p, k.inUse q = true := by
  obtain ⟨hp, hless⟩ := Slots.find?_least (by decide) h
  refine ⟨by simpa [Kernel.inUse] using hp, ?_⟩
  intro q hq
  have := hless q (by fin_cases q <;> simp) hq
  simpa [Kernel.inUse] using this

theorem getFreePcb_eq_none {k : Kernel} : getFreePcb k = none ↔ ∀ p, k.inUse p = true := by
  unfold getFreePcb Kernel.inUse
  rw [List.find?_eq_none]
  constructor
  · intro h p
    have := h p (by fin_cases p <;> simp)
    simpa using this
  · intro h p _
    simp [h p]

/-- Where the PCBs in use are the first `n`, the next one is free. -/
theorem getFreePcb_first {k : Kernel} {n : Nat} (hn : n < 6) (h : ∀ p, k.inUse p = true ↔ p.val < n) :
    getFreePcb k = some ⟨n, hn⟩ := by
  cases hp : getFreePcb k with
  | none =>
    have hlt := (h _).1 (getFreePcb_eq_none.1 hp ⟨n, hn⟩)
    exact absurd hlt (lt_irrefl n)
  | some p =>
    obtain ⟨hfree, hless⟩ := getFreePcb_eq_some hp
    have hge : ¬p.val < n := by
      rw [← h, hfree]
      simp
    have hle : ¬n < p.val := fun hlt => absurd ((h _).1 (hless ⟨n, hn⟩ hlt)) (lt_irrefl n)
    have heq : p.val = n := by omega
    exact congrArg some (Fin.ext heq)

/-! ### The decision of `sys_execute` -/

/-- What `sys_execute` makes of the inode number it has found. -/
def fileOutcome (fs : FileSystem) (inode : Nat) : ExecResult :=
  match execCheck fs inode with
  | none => .faulted
  | some eip =>
    if eip = -1 then .error
    else if 0x8048000 + (execFileLoad fs inode 0 (4096 * 1024)).length > 0x8400000 then .faulted
    else .launched eip

/-- What `sys_execute` makes of a command once it has a free PCB. -/
def execOutcome (fs : FileSystem) : Option (List UInt8) → ExecResult
  | none => .error
  | some command =>
    match scanWord (skipSpaces command) [] with
    | none => .error
    | some (filename, rest) =>
      match scanWord (skipSpaces rest) [] with
      | none => .error
      | some _ =>
        let temp := readDentryByName fs (cString filename) emptyDentry
        if temp.2 = -1 then .error else fileOutcome fs temp.1.inodeNum

private theorem readBlocks_currDir (fs : FileSystem) (n tempInode length fuel loop offset : Nat) (buf : List UInt8) :
    readBlocks { fs with currDir := n } tempInode length fuel loop offset buf =
      readBlocks fs tempInode length fuel loop offset buf := by
  have hcopy : ∀ p m, copyBytes { fs with currDir := n } p m = copyBytes fs p m := by
    intro p m
    induction m generalizing p with
    | zero => rfl
    | succ m ih => simp only [copyBytes, ih]; rfl
  induction fuel generalizing loop offset buf with
  | zero => rfl
  | succ fuel ih => simp only [readBlocks, hcopy, ih]; rfl

/-- The position in the directory has no part in the decision. -/
theorem execOutcome_currDir (fs : FileSystem) (n : Nat) (command : Option (List UInt8)) :
    execOutcome { fs with currDir := n } command = execOutcome fs command := by
  have hload : ∀ i, execFileLoad { fs with currDir := n } i 0 (4096 * 1024) = execFileLoad fs i 0 (4096 * 1024) := by
    intro i
    simp only [execFileLoad, readData, readBlocks_currDir]
    rfl
  unfold execOutcome fileOutcome
  simp only [hload]
  rfl

/-! ### The ways `sys_execute` ends -/

/-- `k'` has the files, the devices and the choice of terminals of `k`, and what is new on its screen was printed. -/
structure SameDevices (k k' : Kernel) : Prop where
  fs : k'.fs = k.fs
  rtc : k'.rtc = k.rtc
  keyboard : k'.keyboard = k.keyboard
  onScreen : k'.onScreen = k.onScreen
  currTerminal : k'.currTerminal = k.currTerminal
  pitCount : k'.pitCount = k.pitCount
  flagException : k'.flagException = k.flagException
  screen : ∃ text, k'.screen = (puts k text).screen

/-- The state `k'` of a failed `sys_execute`: only `prev_pid` and the PCBs of unused processes differ. -/
structure Failed (k k' : Kernel) : Prop extends SameDevices k k' where
  paging : k'.paging = k.paging
  tss : k'.tss = k.tss
  terminals : k'.terminals = k.terminals
  pidCounter : k'.pidCounter = k.pidCounter
  prevPid : k'.prevPid = k.pidCounter
  inUse : ∀ p, k'.inUse p = k.inUse p
  pcb : ∀ p, k.inUse p = true → k'.allPcbs p = k.allPcbs p
  fdt : ∀ p, (k'.allPcbs p).fdt = (k.allPcbs p).fdt ∨ (k'.allPcbs p).fdt = initFdt (k.allPcbs p).fdt

/-- The state `k'` in which `sys_execute` enters a new process. -/
structure Launched (k : Kernel) (frame : Frame) (k' : Kernel) : Prop extends SameDevices k k' where
  free : getFreePcb k = some k'.pidCounter
  prevPid : k'.prevPid = k.pidCounter
  paging : k'.paging = updateUserAddr k.paging k'.pidCounter.val
  tss : k'.tss = { esp0 := kernelStack k'.pidCounter.val, ss0 := 0x18 }
  terminals : k'.terminals = Function.update k.terminals k.currTerminal (k.curr.push k'.pidCounter)
  inUse : k'.inUse k'.pidCounter = true
  fdt : k'.fdt = initFdt (k.allPcbs k'.pidCounter).fdt
  oldFrame : (k'.allPcbs k'.pidCounter).oldEbp = frame.ebp ∧ (k'.allPcbs k'.pidCounter).oldEsp = frame.esp
  pcb : ∀ p ≠ k'.pidCounter, k'.allPcbs p = k.allPcbs p

/-- The state `k'` in which `exec_check` reads an address that is not mapped, or the copy of a too large program runs
out of its page. -/
structure Faulted (k k' : Kernel) : Prop extends SameDevices k k' where
  free : getFreePcb k = some k'.pidCounter
  prevPid : k'.prevPid = k.pidCounter
  paging : k'.paging = k.paging ∨ k'.paging = updateUserAddr k.paging k'.pidCounter.val
  tss : k'.tss = k.tss
  terminals : k'.terminals = k.terminals
  inUse : k'.inUse k'.pidCounter = true
  fdt : k'.fdt = initFdt (k.allPcbs k'.pidCounter).fdt
  pcb : ∀ p ≠ k'.pidCounter, k'.allPcbs p = k.allPcbs p

/-- The state between `init_pcb` and the end of `sys_execute`. -/
private structure Prepared (k : Kernel) (pid : Fin 6) (k' : Kernel) : Prop extends SameDevices k k' where
  pidCounter : k'.pidCounter = pid
  prevPid : k'.prevPid = k.pidCounter
  paging : k'.paging = k.paging
  tss : k'.tss = k.tss
  terminals : k'.terminals = k.terminals
  inUse : k'.inUse pid = true
  fdt : (k'.allPcbs pid).fdt = initFdt (k.allPcbs pid).fdt
  pcb : ∀ p ≠ pid, k'.allPcbs p = k.allPcbs p

theorem puts_append (k : Kernel) (s t : List UInt8) : puts (puts k s) t = puts k (s ++ t) := by
  simp [puts]

/-- The screen after a text depends on the screen before, on the buffer of the current terminal and on the choice
of the page. -/
theorem puts_screen (k : Kernel) (s : List UInt8) :
    (puts k s).screen = s.foldl (fun sc c => sc.putc k.curr.videoBuffer k.toMain c) k.screen := by
  induction s generalizing k with
  | nil => rfl
  | cons c s ih => exact ih (putc k c)

private theorem puts_screen_congr {k k' : Kernel} {text : List UInt8} (hscreen : k'.screen = (puts k text).screen)
    (hterminals : k'.terminals = k.terminals) (hcurr : k'.currTerminal = k.currTerminal)
    (hon : k'.onScreen = k.onScreen) (hkb : k'.keyboard = k.keyboard) (s : List UInt8) :
    (puts k' s).screen = (puts k (text ++ s)).screen := by
  have hvb : k'.curr.videoBuffer = k.curr.videoBuffer := by rw [Kernel.curr, Kernel.curr, hterminals, hcurr]
  have hmain : k'.toMain = k.toMain := by rw [Kernel.toMain, Kernel.toMain, hon, hcurr, hkb]
  rw [puts_screen, puts_screen, List.foldl_append, hscreen, puts_screen, hvb, hmain]

private theorem prepared_init (k : Kernel) (pid : Fin 6) :
    Prepared k pid (initPcb { k with prevPid := k.pidCounter, pidCounter := pid } pid) where
  fs := rfl
  rtc := rfl
  keyboard := rfl
  onScreen := rfl
  currTerminal := rfl
  pitCount := rfl
  flagException := rfl
  screen := ⟨[], rfl⟩
  pidCounter := rfl
  prevPid := rfl
  paging := rfl
  tss := rfl
  terminals := rfl
  inUse := by simp [initPcb, Kernel.inUse]
  fdt := by simp [initPcb]
  pcb p hp := by simp [initPcb, hp]

private theorem Prepared.puts {k k' : Kernel} {pid : Fin 6} (h : Prepared k pid k') (s : List UInt8) :
    Prepared k pid (puts k' s) := by
  obtain ⟨text, htext⟩ := h.screen
  have hscreen : (BigChungOS.puts k' s).screen = (BigChungOS.puts k (text ++ s)).screen :=
    puts_screen_congr htext h.terminals h.currTerminal h.onScreen h.keyboard s
  rw [puts_eq k' s]
  exact { h with screen := ⟨text ++ s, hscreen⟩ }

/-- A store to `args` of the new process. -/
private theorem Prepared.setArgs {k k' : Kernel} {pid : Fin 6} (h : Prepared k pid k')
    (args : (Nat → UInt8) → Nat → UInt8) :
    Prepared k pid (k'.setPcb pid fun pcb => { pcb with args := args pcb.args }) where
  toSameDevices := { h.toSameDevices with }
  pidCounter := h.pidCounter
  prevPid := h.prevPid
  paging := h.paging
  tss := h.tss
  terminals := h.terminals
  inUse := by simpa [Kernel.inUse] using h.inUse
  fdt := by simpa using h.fdt
  pcb p hp := by simpa [hp] using h.pcb p hp

private theorem Prepared.clearArgs {k k' : Kernel} {pid : Fin 6} (h : Prepared k pid k') :
    Prepared k pid (clearArgs k') := by
  unfold BigChungOS.clearArgs
  rw [h.pidCounter]
  exact h.setArgs fun args i => if i < 32 then 0 else args i

/-- The exit without a free PCB, after its two messages. -/
private theorem failed_full (k : Kernel) (s : List UInt8) : Failed k (puts { k with prevPid := k.pidCounter } s) := by
  have hnil : ({ k with prevPid := k.pidCounter } : Kernel).screen = (puts k []).screen := rfl
  have hscreen := puts_screen_congr hnil rfl rfl rfl rfl s
  rw [puts_eq]
  exact
    { fs := rfl, rtc := rfl, keyboard := rfl, onScreen := rfl, currTerminal := rfl, pitCount := rfl
      flagException := rfl, screen := ⟨_, hscreen⟩, paging := rfl, tss := rfl, terminals := rfl, pidCounter := rfl
      prevPid := rfl, inUse := fun _ => rfl, pcb := fun _ _ => rfl, fdt := fun _ => .inl rfl }

/-- The failure exits give the PCB back. -/
private theorem Prepared.undo {k k' : Kernel} {pid : Fin 6} (hfree : k.inUse pid = false)
    (h : Prepared k pid k') : Failed k (undoExecute k') where
  toSameDevices := { h.toSameDevices with }
  paging := h.paging
  tss := h.tss
  terminals := h.terminals
  pidCounter := h.prevPid
  prevPid := h.prevPid
  inUse p := by
    by_cases hp : p = pid
    · subst hp; simpa [undoExecute, Kernel.inUse, h.pidCounter] using hfree
    · simp [undoExecute, Kernel.inUse, h.pidCounter, hp, h.pcb p hp]
  pcb p hp := by
    have hne : p ≠ pid := by rintro rfl; simp [hfree] at hp
    simp [undoExecute, h.pidCounter, hne, h.pcb p hne]
  fdt p := by
    by_cases hp : p = pid
    · subst hp
      right
      simpa [undoExecute, h.pidCounter] using h.fdt
    · left
      simp [undoExecute, h.pidCounter, hp, h.pcb p hp]

private theorem Prepared.launch {k k' : Kernel} {pid : Fin 6} (hfree : getFreePcb k = some pid)
    (h : Prepared k pid k') (stored : List UInt8) (frame : Frame) : Launched k frame (launch k' stored frame) where
  toSameDevices := { h.toSameDevices with }
  free := hfree.trans (congrArg some h.pidCounter.symm)
  prevPid := h.prevPid
  paging := congrArg (updateUserAddr · _) h.paging
  tss := rfl
  terminals := by
    show Function.update k'.terminals k'.currTerminal (k'.curr.push k'.pidCounter) = _
    rw [Kernel.curr, h.terminals, h.currTerminal]
    rfl
  inUse := by
    have := h.inUse
    simp only [BigChungOS.launch, Kernel.inUse, setPcb_allPcbs, setPcb_pidCounter, setTerminal_allPcbs,
      setTerminal_pidCounter, Function.update_self, h.pidCounter]
    exact this
  fdt := by
    simp only [BigChungOS.launch, Kernel.fdt, setPcb_allPcbs, setPcb_pidCounter, setTerminal_allPcbs,
      setTerminal_pidCounter, Function.update_self, h.pidCounter]
    exact h.fdt
  oldFrame := by simp [BigChungOS.launch]
  pcb p hp := by
    have hne : p ≠ pid := by rintro rfl; exact hp h.pidCounter.symm
    simp [BigChungOS.launch, h.pidCounter, hne, h.pcb p hne]

private theorem Prepared.fault {k k' : Kernel} {pid : Fin 6} (hfree : getFreePcb k = some pid)
    (h : Prepared k pid k') {pg : Paging} (hpg : pg = k'.paging ∨ pg = updateUserAddr k'.paging pid.val) :
    Faulted k { k' with paging := pg } where
  toSameDevices := { h.toSameDevices with }
  free := hfree.trans (congrArg some h.pidCounter.symm)
  prevPid := h.prevPid
  paging := by
    show pg = k.paging ∨ pg = updateUserAddr k.paging k'.pidCounter.val
    rwa [← h.paging, h.pidCounter]
  tss := h.tss
  terminals := h.terminals
  inUse := (congrArg (fun p => (k'.allPcbs p).inUse) h.pidCounter).trans h.inUse
  fdt := by
    show (k'.allPcbs k'.pidCounter).fdt = initFdt (k.allPcbs k'.pidCounter).fdt
    rw [h.pidCounter]
    exact h.fdt
  pcb p hp := h.pcb p fun hpid => hp (hpid.trans h.pidCounter.symm)

/-- How `sys_execute` ends, by its result. -/
private def Ended (k : Kernel) (frame : Frame) (r : Kernel × ExecResult) : Prop :=
  match r.2 with
  | .error => Failed k r.1
  | .launched _ => Launched k frame r.1
  | .faulted => Faulted k r.1

private theorem sysExecute_ended (k : Kernel) (command : Option (List UInt8)) (frame : Frame) :
    (sysExecute k command frame).2 = (if getFreePcb k = none then .error else execOutcome k.fs command) ∧
      Ended k frame (sysExecute k command frame) := by
  unfold sysExecute
  dsimp only
  have hsame : getFreePcb { k with prevPid := k.pidCounter } = getFreePcb k := rfl
  rw [hsame]
  cases hfree : getFreePcb k with
  | none =>
    refine ⟨by simp, ?_⟩
    rw [puts_append]
    exact failed_full k _
  | some pid =>
    have hunused : k.inUse pid = false := (getFreePcb_eq_some hfree).1
    have hinit := prepared_init k pid
    dsimp only
    generalize initPcb { k with prevPid := k.pidCounter, pidCounter := pid } pid = k₁ at hinit ⊢
    cases command with
    | none => exact ⟨by simp [execOutcome], hinit.undo hunused⟩
    | some command =>
      rw [if_neg (by simp), execOutcome]
      dsimp only
      cases scanWord (skipSpaces command) [] with
      | none => exact ⟨rfl, (hinit.puts _).undo hunused⟩
      | some w =>
        obtain ⟨filename, rest⟩ := w
        dsimp only
        cases scanWord (skipSpaces rest) [] with
        | none => exact ⟨rfl, (hinit.puts _).clearArgs.undo hunused⟩
        | some w =>
          obtain ⟨args, left⟩ := w
          dsimp only
          have hargs := hinit.setArgs fun old i => if i < args.length then args.getD i 0 else old i
          generalize k₁.setPcb pid _ = k₂ at hargs
          rw [← hargs.fs]
          split
          · exact ⟨rfl, hargs.clearArgs.undo hunused⟩
          · rw [fileOutcome]
            cases execCheck k₂.fs _ with
            | none => exact ⟨rfl, hargs.fault hfree (.inl rfl)⟩
            | some eip =>
              dsimp only
              split
              · exact ⟨rfl, hargs.clearArgs.undo hunused⟩
              · split
                · exact ⟨rfl, hargs.fault hfree (.inr rfl)⟩
                · exact ⟨rfl, hargs.launch hfree _ frame⟩

/-- The result of `sys_execute`. -/
theorem sysExecute_result (k : Kernel) (command : Option (List UInt8)) (frame : Frame) :
    (sysExecute k command frame).2 = if getFreePcb k = none then .error else execOutcome k.fs command :=
  (sysExecute_ended k command frame).1

theorem sysExecute_failed {k : Kernel} {command : Option (List UInt8)} {frame : Frame}
    (h : (sysExecute k command frame).2 = .error) : Failed k (sysExecute k command frame).1 := by
  have hend := (sysExecute_ended k command frame).2
  simpa only [Ended, h] using hend

theorem sysExecute_launched {k : Kernel} {command : Option (List UInt8)} {frame : Frame} {eip : Int}
    (h : (sysExecute k command frame).2 = .launched eip) : Launched k frame (sysExecute k command frame).1 := by
  have hend := (sysExecute_ended k command frame).2
  simpa only [Ended, h] using hend

theorem sysExecute_faulted {k : Kernel} {command : Option (List UInt8)} {frame : Frame}
    (h : (sysExecute k command frame).2 = .faulted) : Faulted k (sysExecute k command frame).1 := by
  have hend := (sysExecute_ended k command frame).2
  simpa only [Ended, h] using hend

/-- However it ends, `sys_execute` changes the devices only by printing. -/
theorem sysExecute_sameDevices (k : Kernel) (command : Option (List UInt8)) (frame : Frame) :
    SameDevices k (sysExecute k command frame).1 := by
  cases hres : (sysExecute k command frame).2 with
  | error => exact (sysExecute_failed hres).toSameDevices
  | launched eip => exact (sysExecute_launched hres).toSameDevices
  | faulted => exact (sysExecute_faulted hres).toSameDevices

/-- What `sys_execute` does to a terminal, if anything, is a push. -/
theorem sysExecute_terminals (k : Kernel) (command : Option (List UInt8)) (frame : Frame) (t : Fin 3) :
    ∃ procs currProcess, (sysExecute k command frame).1.terminals t =
      { k.terminals t with procs := procs, currProcess := currProcess } := by
  cases hres : (sysExecute k command frame).2 with
  | error => exact ⟨_, _, by rw [(sysExecute_failed hres).terminals]⟩
  | launched eip =>
    rw [(sysExecute_launched hres).terminals]
    by_cases ht : t = k.currTerminal
    · subst ht
      rw [Function.update_self]
      exact (k.terminals k.currTerminal).push_rest _
    · exact ⟨_, _, by rw [Function.update_of_ne ht]⟩
  | faulted => exact ⟨_, _, by rw [(sysExecute_faulted hres).terminals]⟩

/-! ### A machine with one program -/

/-- A file system image with one directory entry, the executable `shell`: the boot block, the inode block and one
data block with an ELF header. -/
def shellImage : Nat → UInt8 := fun a =>
  if a = 0 ∨ a = 4 ∨ a = 8 then 1
  else if 64 ≤ a ∧ a < 69 then (asBytes "shell").getD (a - 64) 0
  else if a = 96 then 2
  else if a = 4096 then 28
  else if 8192 ≤ a ∧ a < 8196 then ([0x7F, 0x45, 0x4C, 0x46] : List UInt8).getD (a - 8192) 0
  else if 8216 ≤ a ∧ a < 8220 then ([0x00, 0x80, 0x04, 0x08] : List UInt8).getD (a - 8216) 0
  else 0

/-- A boot from that image. -/
def shellBoot : Boot where
  bootBlockPtr := 0x500000
  image := shellImage
  addrs := { pageTable1 := 0x404000, pageTable2 := 0x405000, aligned1 := rfl, aligned2 := rfl, distinct := by decide }
  text := []
  cmos := fun _ => 0
  memory := fun _ => 0
  keyboardPast := fun _ => 0
  tables := { pageDirectory := fun _ => 0, pageTable1 := fun _ => 0, pageTable2 := fun _ => 0 }

/-- The frame the runs on fixed inputs use. -/
def frame₀ : Frame := { ebp := 0x7FFFF0, esp := 0x7FFFC0 }

/-- The state in which the first shell of that machine runs. -/
def firstShell : Kernel := (pitHandler (entry shellBoot) frame₀ frame₀).1

/-- The state in which the first shell has executed a second one. -/
def secondShell : Kernel := (sysExecute firstShell (some (asBytes "shell")) frame₀).1

/-- The states after the second and the third timer tick: a shell on each terminal, the last one running. -/
def twoShells : Kernel := (pitHandler firstShell frame₀ frame₀).1
def threeShells : Kernel := (pitHandler twoShells frame₀ frame₀).1

/-! ### A failed `sys_execute` -/

/-- The state later calls depend on is the same in `k` and `k'`. -/
structure SameForLater (k k' : Kernel) : Prop where
  inUse : ∀ p, k'.inUse p = k.inUse p
  pidCounter : k'.pidCounter = k.pidCounter
  prevPid : k'.prevPid = k.prevPid
  procs : ∀ t, (k'.terminals t).procs = (k.terminals t).procs
  currProcess : ∀ t, (k'.terminals t).currProcess = (k.terminals t).currProcess
  esp0 : k'.tss.esp0 = k.tss.esp0
  userPage : k'.paging.pageDirectory 32 = k.paging.pageDirectory 32
  fdt : ∀ p, k.inUse p = true → (k'.allPcbs p).fdt = (k.allPcbs p).fdt

/-- A failed `sys_execute` is invisible to later calls exactly when `prev_pid` named the caller already. -/
theorem failed_execute_invisible_iff {k : Kernel} {command : Option (List UInt8)} {frame : Frame}
    (h : (sysExecute k command frame).2 = .error) :
    SameForLater k (sysExecute k command frame).1 ↔ k.prevPid = k.pidCounter := by
  have hfail := sysExecute_failed h
  constructor
  · intro hsame
    exact hsame.prevPid.symm.trans hfail.prevPid
  · intro hprev
    exact
      { inUse := hfail.inUse
        pidCounter := hfail.pidCounter
        prevPid := hfail.prevPid.trans hprev.symm
        procs := fun t => by rw [hfail.terminals]
        currProcess := fun t => by rw [hfail.terminals]
        esp0 := by rw [hfail.tss]
        userPage := by rw [hfail.paging]
        fdt := fun p hp => by rw [hfail.pcb p hp] }

/-- The first shell executes a program that does not exist. -/
theorem firstShell_failed_execute :
    (sysExecute firstShell (some (asBytes "nothing")) frame₀).2 = .error ∧
      (SameForLater firstShell (sysExecute firstShell (some (asBytes "nothing")) frame₀).1 ↔
        firstShell.prevPid = firstShell.pidCounter) :=
  ⟨by decide +kernel, failed_execute_invisible_iff (by decide +kernel)⟩

/-- The second shell, started by the first, does the same: its parent is forgotten. -/
theorem failed_execute_forgets_parent :
    (sysExecute secondShell (some (asBytes "nothing")) frame₀).2 = .error ∧
      secondShell.prevPid = 0 ∧ (sysExecute secondShell (some (asBytes "nothing")) frame₀).1.prevPid = 1 ∧
      ¬SameForLater secondShell (sysExecute secondShell (some (asBytes "nothing")) frame₀).1 := by
  have hbefore : secondShell.prevPid = 0 := by decide +kernel
  have hafter : (sysExecute secondShell (some (asBytes "nothing")) frame₀).1.prevPid = 1 := by decide +kernel
  refine ⟨by decide +kernel, hbefore, hafter, ?_⟩
  intro hsame
  have := hsame.prevPid
  rw [hbefore, hafter] at this
  exact absurd this (by decide)

/-! ### `sys_halt` -/

/-- `k'` differs from `k` at most in the directory position, the clock and the descriptors of the running process. -/
structure FilesOnly (k k' : Kernel) : Prop where
  fs : ∃ n, k'.fs = { k.fs with currDir := n }
  paging : k'.paging = k.paging
  tss : k'.tss = k.tss
  screen : k'.screen = k.screen
  keyboard : k'.keyboard = k.keyboard
  terminals : k'.terminals = k.terminals
  onScreen : k'.onScreen = k.onScreen
  currTerminal : k'.currTerminal = k.currTerminal
  pitCount : k'.pitCount = k.pitCount
  pidCounter : k'.pidCounter = k.pidCounter
  prevPid : k'.prevPid = k.prevPid
  flagException : k'.flagException = k.flagException
  pcbs : ∃ fdt, k'.allPcbs =
    Function.update k.allPcbs k.pidCounter { k.allPcbs k.pidCounter with fdt := fdt }

theorem FilesOnly.refl (k : Kernel) : FilesOnly k k where
  fs := ⟨k.fs.currDir, rfl⟩
  paging := rfl
  tss := rfl
  screen := rfl
  keyboard := rfl
  terminals := rfl
  onScreen := rfl
  currTerminal := rfl
  pitCount := rfl
  pidCounter := rfl
  prevPid := rfl
  flagException := rfl
  pcbs := ⟨(k.allPcbs k.pidCounter).fdt, by simp⟩

theorem FilesOnly.trans {k k' k'' : Kernel} (h : FilesOnly k k') (h' : FilesOnly k' k'') : FilesOnly k k'' where
  fs := by
    obtain ⟨n, hn⟩ := h.fs
    obtain ⟨n', hn'⟩ := h'.fs
    exact ⟨n', by rw [hn', hn]⟩
  paging := h'.paging.trans h.paging
  tss := h'.tss.trans h.tss
  screen := h'.screen.trans h.screen
  keyboard := h'.keyboard.trans h.keyboard
  terminals := h'.terminals.trans h.terminals
  onScreen := h'.onScreen.trans h.onScreen
  currTerminal := h'.currTerminal.trans h.currTerminal
  pitCount := h'.pitCount.trans h.pitCount
  pidCounter := h'.pidCounter.trans h.pidCounter
  prevPid := h'.prevPid.trans h.prevPid
  flagException := h'.flagException.trans h.flagException
  pcbs := by
    obtain ⟨fdt, hfdt⟩ := h.pcbs
    obtain ⟨fdt', hfdt'⟩ := h'.pcbs
    exact ⟨fdt', by rw [hfdt', hfdt, h.pidCounter]; simp⟩

theorem FilesOnly.inUse {k k' : Kernel} (h : FilesOnly k k') (p : Fin 6) : k'.inUse p = k.inUse p := by
  obtain ⟨fdt, hfdt⟩ := h.pcbs
  by_cases hp : p = k.pidCounter
  · subst hp; simp [Kernel.inUse, hfdt]
  · simp [Kernel.inUse, hfdt, hp]

theorem setFd_filesOnly (k : Kernel) (d : Fin 8) (f : FdTable → FdTable) : FilesOnly k (k.setFd d f) :=
  { FilesOnly.refl k with pcbs := ⟨_, rfl⟩ }

private theorem fopClose_filesOnly (k : Kernel) (d : Fin 8) (fop : Fop) : FilesOnly k (fopClose k d fop) := by
  cases fop with
  | rtc => exact { FilesOnly.refl k with }
  | dir => exact { FilesOnly.refl k with fs := ⟨0, rfl⟩ }
  | file =>
    simp only [fopClose, fileCloseHelper]
    split
    · dsimp only
      exact setFd_filesOnly k d _
    · exact FilesOnly.refl k
  | terminal => exact FilesOnly.refl k
  | null => exact FilesOnly.refl k

theorem sysClose_filesOnly (k : Kernel) (fd : Int) : FilesOnly k (sysClose k fd).1 := by
  unfold sysClose
  dsimp only
  split
  · exact FilesOnly.refl k
  · split
    · dsimp only
      exact (fopClose_filesOnly k _ _).trans (setFd_filesOnly (fopClose k _ _) _ _)
    · exact FilesOnly.refl k

theorem closeAll_filesOnly (k : Kernel) : FilesOnly k (closeAll k) := by
  have key : ∀ (l : List Int) (k : Kernel), FilesOnly k (l.foldl (fun k fd => (sysClose k fd).1) k) := by
    intro l
    induction l with
    | nil => exact FilesOnly.refl
    | cons fd l ih => intro k; exact (sysClose_filesOnly k fd).trans (ih _)
  exact key _ k

/-- The state in which `sys_halt` has closed the files and given the PCB of the running process back. -/
def released (k : Kernel) : Kernel :=
  (closeAll k).setPcb (closeAll k).pidCounter fun pcb => { pcb with inUse := false }

/-- `k'` differs from `k` in what `sys_halt` releases. -/
structure Released (k k' : Kernel) : Prop where
  fs : ∃ n, k'.fs = { k.fs with currDir := n }
  paging : k'.paging = k.paging
  tss : k'.tss = k.tss
  screen : k'.screen = k.screen
  keyboard : k'.keyboard = k.keyboard
  terminals : k'.terminals = k.terminals
  onScreen : k'.onScreen = k.onScreen
  currTerminal : k'.currTerminal = k.currTerminal
  pitCount : k'.pitCount = k.pitCount
  pidCounter : k'.pidCounter = k.pidCounter
  prevPid : k'.prevPid = k.prevPid
  inUse : k'.inUse = Function.update k.inUse k.pidCounter false
  pcb : ∀ p ≠ k.pidCounter, k'.allPcbs p = k.allPcbs p
  oldFrame : (k'.allPcbs k.pidCounter).oldEbp = (k.allPcbs k.pidCounter).oldEbp ∧
    (k'.allPcbs k.pidCounter).oldEsp = (k.allPcbs k.pidCounter).oldEsp

theorem Released.curr {k k' : Kernel} (h : Released k k') : k'.curr = k.curr := by
  rw [Kernel.curr, h.terminals, h.currTerminal, Kernel.curr]

theorem released_spec (k : Kernel) : Released k (released k) := by
  have h := closeAll_filesOnly k
  obtain ⟨fdt, hfdt⟩ := h.pcbs
  exact
    { fs := h.fs, paging := h.paging, tss := h.tss, screen := h.screen, keyboard := h.keyboard
      terminals := h.terminals, onScreen := h.onScreen, currTerminal := h.currTerminal, pitCount := h.pitCount
      pidCounter := h.pidCounter, prevPid := h.prevPid
      inUse := by
        funext p
        have hp := h.inUse p
        by_cases hpid : p = k.pidCounter
        · subst hpid; simp [released, Kernel.inUse, h.pidCounter]
        · simpa [released, Kernel.inUse, h.pidCounter, hpid] using hp
      pcb := fun p hp => by simp [released, h.pidCounter, hfdt, hp]
      oldFrame := by simp [released, h.pidCounter, hfdt] }

/-- The state `k'` after the end of `sys_halt`: the running process is off the current terminal and `prev_pid` runs. -/
structure HaltReturned (k k' : Kernel) : Prop where
  fs : k'.fs = k.fs
  paging : k'.paging = updateUserAddr k.paging k.prevPid.val
  tss : k'.tss = { esp0 := kernelStack k.prevPid.val, ss0 := 0x18 }
  screen : k'.screen = k.screen
  keyboard : k'.keyboard = k.keyboard
  terminals : k'.terminals = Function.update k.terminals k.currTerminal k.curr.pop
  onScreen : k'.onScreen = k.onScreen
  currTerminal : k'.currTerminal = k.currTerminal
  pitCount : k'.pitCount = k.pitCount
  pcbs : k'.allPcbs = k.allPcbs
  pidCounter : k'.pidCounter = k.prevPid
  prevPid : k'.prevPid = k.prevPid

theorem haltReturn_spec (k : Kernel) (status : UInt8) : HaltReturned k (haltReturn k status).1 := by
  unfold haltReturn
  dsimp only
  split <;> constructor <;> rfl

/-- Halting any process but 1 and 2 goes straight to the end of `sys_halt`. -/
theorem sysHalt_of_other {k : Kernel} (h : ¬(0 < k.pidCounter.val ∧ k.pidCounter.val < 3)) (status : UInt8)
    (frame : Frame) : sysHalt k status frame = haltReturn (released k) status := by
  have hpid : (released k).pidCounter = k.pidCounter := (released_spec k).pidCounter
  unfold sysHalt
  rw [if_neg]
  · rfl
  · exact hpid ▸ h

/-- Halting process 1 or 2 executes a shell first. -/
theorem sysHalt_of_base {k : Kernel} (h : 0 < k.pidCounter.val ∧ k.pidCounter.val < 3) (status : UInt8)
    (frame : Frame) :
    sysHalt k status frame =
      match sysExecute (released k) (some (asBytes "shell")) frame with
      | (k, .launched eip) => (k, .relaunched eip)
      | (k, .faulted) => (k, .faulted)
      | (k, .error) => haltReturn k status := by
  have hpid : (released k).pidCounter = k.pidCounter := (released_spec k).pidCounter
  unfold sysHalt
  rw [if_pos]
  · rfl
  · exact hpid ▸ h

/-- What giving the PCB back, executing a shell and the end of `sys_halt` keep, `sys_halt` keeps. -/
theorem sysHalt_keeps {P : Kernel → Prop} {k : Kernel} {status : UInt8} {frame : Frame} (hreleased : P (released k))
    (hexecute : ∀ k, P k → P (sysExecute k (some (asBytes "shell")) frame).1)
    (hreturn : ∀ k, P k → P (haltReturn k status).1) : P (sysHalt k status frame).1 := by
  by_cases hbase : 0 < k.pidCounter.val ∧ k.pidCounter.val < 3
  · have hexecuted := hexecute _ hreleased
    rw [sysHalt_of_base hbase]
    generalize sysExecute (released k) (some (asBytes "shell")) frame = r at hexecuted ⊢
    obtain ⟨k₁, res⟩ := r
    cases res with
    | error => exact hreturn k₁ hexecuted
    | launched | faulted => exact hexecuted
  · rw [sysHalt_of_other hbase]
    exact hreturn _ hreleased

/-- The ways `sys_halt` ends.  Process 1 or 2 executes a shell first; only when that fails does its halt go on like that
of the others. -/
inductive HaltEnded (k : Kernel) (frame : Frame) : Kernel → HaltResult → Prop
  | other {k' : Kernel} {resumed : Frame} {eax : Int} (h : ¬(0 < k.pidCounter.val ∧ k.pidCounter.val < 3))
      (hreturn : HaltReturned (released k) k') : HaltEnded k frame k' (.resumed resumed eax)
  | failed {k₁ k' : Kernel} {resumed : Frame} {eax : Int} (h : 0 < k.pidCounter.val ∧ k.pidCounter.val < 3)
      (hfail : Failed (released k) k₁) (hreturn : HaltReturned k₁ k') : HaltEnded k frame k' (.resumed resumed eax)
  | relaunched {k' : Kernel} {eip : Int} (h : 0 < k.pidCounter.val ∧ k.pidCounter.val < 3)
      (hlaunch : Launched (released k) frame k') : HaltEnded k frame k' (.relaunched eip)
  | faulted {k' : Kernel} (h : 0 < k.pidCounter.val ∧ k.pidCounter.val < 3) (hfault : Faulted (released k) k') :
      HaltEnded k frame k' .faulted

theorem sysHalt_ended (k : Kernel) (status : UInt8) (frame : Frame) :
    HaltEnded k frame (sysHalt k status frame).1 (sysHalt k status frame).2 := by
  have hresumed : ∀ k : Kernel, ∃ resumed eax, (haltReturn k status).2 = .resumed resumed eax := by
    intro k
    unfold haltReturn
    dsimp only
    split
    · exact ⟨_, _, rfl⟩
    · exact ⟨_, _, rfl⟩
  by_cases hbase : 0 < k.pidCounter.val ∧ k.pidCounter.val < 3
  · rw [sysHalt_of_base hbase]
    generalize hr : sysExecute (released k) (some (asBytes "shell")) frame = r
    obtain ⟨k₁, res⟩ := r
    cases res with
    | error =>
      have hfail := sysExecute_failed (congrArg Prod.snd hr)
      rw [hr] at hfail
      obtain ⟨resumed, eax, hres⟩ := hresumed k₁
      dsimp only
      rw [hres]
      exact .failed hbase hfail (haltReturn_spec k₁ status)
    | launched eip =>
      have hlaunch := sysExecute_launched (congrArg Prod.snd hr)
      rw [hr] at hlaunch
      exact .relaunched hbase hlaunch
    | faulted =>
      have hfault := sysExecute_faulted (congrArg Prod.snd hr)
      rw [hr] at hfault
      exact .faulted hbase hfault
  · rw [sysHalt_of_other hbase]
    obtain ⟨resumed, eax, hres⟩ := hresumed (released k)
    rw [hres]
    exact .other hbase (haltReturn_spec (released k) status)

/-- The halting process has just given its PCB back, so the shell is executed with a free one. -/
theorem sysExecute_released_result (k : Kernel) (command : Option (List UInt8)) (frame : Frame) :
    (sysExecute (released k) command frame).2 = execOutcome k.fs command := by
  have hrel := released_spec k
  have hfree : getFreePcb (released k) ≠ none := by
    rw [Ne, getFreePcb_eq_none]
    intro hall
    have := hall k.pidCounter
    rw [hrel.inUse] at this
    simp at this
  obtain ⟨n, hn⟩ := hrel.fs
  rw [sysExecute_result, if_neg hfree, hn, execOutcome_currDir]

/-- Processes 1 and 2 are relaunched as shells, as long as there is a shell to launch. -/
theorem sysHalt_relaunches {k : Kernel} {eip : Int} (hshell : execOutcome k.fs (some (asBytes "shell")) = .launched eip)
    (hbase : 0 < k.pidCounter.val ∧ k.pidCounter.val < 3) (status : UInt8) (frame : Frame) :
    (sysHalt k status frame).2 = .relaunched eip ∧ Launched (released k) frame (sysHalt k status frame).1 := by
  have hresult := (sysExecute_released_result k (some (asBytes "shell")) frame).trans hshell
  have hlaunch := sysExecute_launched hresult
  rw [sysHalt_of_base hbase]
  generalize sysExecute (released k) (some (asBytes "shell")) frame = r at hresult hlaunch ⊢
  obtain ⟨k₁, res⟩ := r
  dsimp only at hresult
  subst hresult
  exact ⟨rfl, hlaunch⟩

/-- A halt moves at most the position in the directory. -/
theorem sysHalt_fs (k : Kernel) (status : UInt8) (frame : Frame) :
    ∃ n, (sysHalt k status frame).1.fs = { k.fs with currDir := n } := by
  obtain ⟨n, hn⟩ := (released_spec k).fs
  refine ⟨n, ?_⟩
  rw [← hn]
  have hend := sysHalt_ended k status frame
  generalize (sysHalt k status frame).1 = k', (sysHalt k status frame).2 = res at hend ⊢
  cases hend with
  | other _ hreturn => exact hreturn.fs
  | failed _ hfail hreturn => exact hreturn.fs.trans hfail.fs
  | relaunched _ hlaunch => exact hlaunch.fs
  | faulted _ hfault => exact hfault.fs

end BigChungOS
