import BigChungOS.FileSystem
import BigChungOS.Paging
import BigChungOS.Rtc
import BigChungOS.Screen

/-!
# The system calls (sys_calls.c, terminal.c)

A call that reads into a caller's buffer returns the bytes it stores from the start of the buffer on; the buffer is
memory of the caller, apart from the kernel's data.  `none` stands for a call that does not return: it still waits,
or it faults.  `sys_execute` and `sys_halt` leave their C function by `iret` or by the jump to `here`; their results
say which way they went, and with which values.
-/

namespace BigChungOS

open Memory

/-! ### terminal.c -/

/-- `while(keyboard_buffer[count] != '\0') ++count`, for at most `fuel` rounds. -/
def lineLengthFrom (buf : Int → UInt8) : Nat → Nat → Option Nat
  | 0, _ => none
  | fuel + 1, count => if buf count = 0 then some count else lineLengthFrom buf fuel (count + 1)

/-- The length of the line in the keyboard buffer: the scan of `terminal_read` over the address space. -/
def lineLength (buf : Int → UInt8) : Option Nat := lineLengthFrom buf 4294967296 0

/-- `terminal_read`.  It spins while `enter_p_flag` of the terminal on screen is clear, and a negative length other
than -1 makes `memcpy` run into an unmapped page. -/
def terminalRead (k : Kernel) (nbytes : Int) : Option (Kernel × Int × List UInt8) :=
  if (k.terminals k.onScreen).enterPFlag = false then none
  else if nbytes = 0 then some (k, 0, [])
  else if k.keyboard.keyboardBuffer 0 = newline then some (k, 0, [])
  else
    match lineLength k.keyboard.keyboardBuffer with
    | none => none
    | some count =>
      let howMany : Int :=
        if (count : Int) = nbytes then count else if (count : Int) > nbytes then nbytes else count
      if howMany + 1 < 0 then none
      else
        let stored := (List.range (howMany + 1).toNat).map fun i : Nat => k.keyboard.keyboardBuffer i
        let kb := { k.keyboard with
          keyboardBuffer := fun i => if 0 ≤ i ∧ i < 128 then 0 else k.keyboard.keyboardBuffer i
          kbIdx := 0 }
        some ({ k with keyboard := kb }.setTerminal k.onScreen fun t => { t with enterPFlag := false }, howMany, stored)

/-- The state after `terminal_read` has copied the line out: the buffer, the index and the flag are cleared. -/
def lineTaken (k : Kernel) : Kernel :=
  { k with keyboard := { k.keyboard with
      keyboardBuffer := fun i => if 0 ≤ i ∧ i < 128 then 0 else k.keyboard.keyboardBuffer i
      kbIdx := 0 } }.setTerminal k.onScreen fun t => { t with enterPFlag := false }

/-- The ways `terminal_read` returns: it takes nothing, or the line up to its NUL, and one byte more. -/
theorem terminalRead_cases {k k' : Kernel} {nbytes r : Int} {stored : List UInt8}
    (h : terminalRead k nbytes = some (k', r, stored)) :
    (k.terminals k.onScreen).enterPFlag = true ∧
      ((nbytes = 0 ∨ k.keyboard.keyboardBuffer 0 = newline) ∧ k' = k ∧ r = 0 ∧ stored = [] ∨
        ∃ count, ¬(nbytes = 0 ∨ k.keyboard.keyboardBuffer 0 = newline) ∧
          lineLength k.keyboard.keyboardBuffer = some count ∧ k' = lineTaken k ∧ r = min (count : Int) nbytes ∧
          0 ≤ r + 1 ∧ stored = (List.range (r + 1).toNat).map fun i : Nat => k.keyboard.keyboardBuffer i) := by
  unfold terminalRead at h
  split at h
  · cases h
  next hflag =>
  refine ⟨by simpa using hflag, ?_⟩
  split at h
  · next hzero =>
    cases h
    exact .inl ⟨.inl hzero, rfl, rfl, rfl⟩
  next hzero =>
  split at h
  · next hempty =>
    cases h
    exact .inl ⟨.inr hempty, rfl, rfl, rfl⟩
  next hempty =>
  cases hline : lineLength k.keyboard.keyboardBuffer with
  | none => simp [hline] at h
  | some count =>
    have hmany : (if (count : Int) = nbytes then (count : Int) else if (count : Int) > nbytes then nbytes
        else (count : Int)) = min (count : Int) nbytes := by
      split_ifs <;> omega
    simp only [hline, hmany] at h
    split at h
    · cases h
    next hroom =>
    simp only [Option.some.injEq, Prod.mk.injEq] at h
    obtain ⟨rfl, rfl, rfl⟩ := h
    exact .inr ⟨count, by tauto, rfl, rfl, rfl, by omega, rfl⟩

/-- `terminal_write`. -/
def terminalWrite (k : Kernel) (buf : Nat → UInt8) (nbytes : Int) : Kernel × Int :=
  (puts k ((List.range nbytes.toNat).map buf), nbytes.toNat)

/-! ### Descriptors -/

/-- The slot of a descriptor that has passed its range check. -/
def fdIndex (fd : Int) : Fin 8 := Fin.ofNat 8 fd.toNat

/-- `file_read_helper`; the position is a `uint32_t`, also when -1 is added to it. -/
def fileReadHelper (k : Kernel) (d : Fin 8) (nbytes : Int) : Kernel × Int × List UInt8 :=
  if (k.fdt d).exists_ then
    let r := fileRead k.fs (k.fdt d).inode (k.fdt d).fileBytesRead nbytes
    (k.setFd d fun e => { e with fileBytesRead := toUInt32 (e.fileBytesRead + r.1) }, r.1, r.2)
  else (k, -1, [])

/-- `file_close_helper`. -/
def fileCloseHelper (k : Kernel) (d : Fin 8) : Kernel × Int :=
  if (k.fdt d).exists_ then (k.setFd d fun e => { e with exists_ := false, fileBytesRead := 0 }, 0)
  else (k, -1)

/-- `fop_->open(filename)`; a call through a null table faults. -/
def fopOpen (k : Kernel) (filename : Nat → UInt8) : Fop → Option Kernel
  | .null => none
  | .rtc => some { k with rtc := (rtcOpen k.rtc).1 }
  | .dir => some { k with fs := (dirOpen k.fs filename).1 }
  | .file | .terminal => some k

/-- `fop_->close(fd)`; no open slot has a null table, since `sys_open` has called through it. -/
def fopClose (k : Kernel) (d : Fin 8) : Fop → Kernel
  | .rtc => { k with rtc := (rtcClose k.rtc).1 }
  | .dir => { k with fs := (dirClose k.fs).1 }
  | .file => (fileCloseHelper k d).1
  | .terminal | .null => k

/-- `fop_->read(fd, buf, nbytes)`. -/
def fopRead (k : Kernel) (d : Fin 8) (nbytes : Int) : Fop → Option (Kernel × Int × List UInt8)
  | .null => none
  | .rtc => some ({ k with rtc := (rtcRead k.rtc).1 }, (rtcRead k.rtc).2, [])
  | .dir => some ({ k with fs := (dirRead k.fs).1 }, (dirRead k.fs).2)
  | .file => some (fileReadHelper k d nbytes)
  | .terminal => terminalRead k nbytes

/-- `fop_->write(fd, buf, nbytes)`. -/
def fopWrite (k : Kernel) (buf : Nat → UInt8) (nbytes : Int) : Fop → Option (Kernel × Int)
  | .null => none
  | .rtc => some ({ k with rtc := (rtcWrite k.rtc (some buf) nbytes).1 }, (rtcWrite k.rtc (some buf) nbytes).2)
  | .dir => some (k, dirWrite)
  | .file => some (k, fileWrite)
  | .terminal => some (terminalWrite k buf nbytes)

/-- The first free slot from 2 on, the loop of `sys_open`. -/
def freeFd (fdt : Fin 8 → FdTable) : Option (Fin 8) :=
  ([2, 3, 4, 5, 6, 7] : List (Fin 8)).find? fun d => !(fdt d).exists_

/-- `switch (temp_dentry.filetype)`; any other type leaves the table of the slot's last use. -/
def fopOfType (filetype : Int) (old : Fop) : Fop :=
  if filetype = 0 then .rtc else if filetype = 1 then .dir else if filetype = 2 then .file else old

/-- `sys_open`. -/
def sysOpen (k : Kernel) (filename : Nat → UInt8) : Option (Kernel × Int) :=
  let r := readDentryByName k.fs filename emptyDentry
  if r.2 = -1 then some (k, -1)
  else
    match freeFd k.fdt with
    | none => some (k, -1)
    | some d =>
      let k := k.setFd d fun e =>
        { fop_ := fopOfType r.1.filetype e.fop_
          fileType := r.1.filetype
          filename := fun i => if i < 32 then r.1.filename i else e.filename i
          exists_ := true
          fileBytesRead := e.fileBytesRead
          inode := r.1.inodeNum }
      (fopOpen k filename (k.fdt d).fop_).map fun k => (k, (d.val : Int))

/-- `sys_close`. -/
def sysClose (k : Kernel) (fd : Int) : Kernel × Int :=
  if fd ≤ 1 ∨ fd ≥ 8 then (k, -1)
  else
    let d := fdIndex fd
    if (k.fdt d).exists_ then
      ((fopClose k d (k.fdt d).fop_).setFd d fun e => { e with exists_ := false }, 0)
    else (k, -1)

/-- `sys_write`. -/
def sysWrite (k : Kernel) (fd : Int) (buf : Ptr) (nbytes : Int) : Option (Kernel × Int) :=
  match buf with
  | none => some (k, -1)
  | some b =>
    if fd ≤ 0 ∨ fd ≥ 8 then some (k, -1)
    else
      let d := fdIndex fd
      if (k.fdt d).exists_ = false then some (k, -1) else fopWrite k b nbytes (k.fdt d).fop_

/-- `sys_read`. -/
def sysRead (k : Kernel) (fd : Int) (buf : Ptr) (nbytes : Int) : Option (Kernel × Int × List UInt8) :=
  match buf with
  | none => some (k, -1, [])
  | some _ =>
    if fd < 0 ∨ fd ≥ 8 ∨ fd = 1 then some (k, -1, [])
    else
      let d := fdIndex fd
      if (k.fdt d).exists_ = false then some (k, -1, []) else fopRead k d nbytes (k.fdt d).fop_

/-! #### How they return -/

section Returns

variable {k k' : Kernel}

private theorem fopOpen_cases {filename : Nat → UInt8} {fop : Fop} (h : fopOpen k filename fop = some k') :
    (∃ c, k' = { k with rtc := c }) ∨ k' = { k with fs := (dirOpen k.fs filename).1 } := by
  cases fop with
  | null => cases h
  | rtc =>
    cases h
    exact .inl ⟨_, rfl⟩
  | dir =>
    cases h
    exact .inr rfl
  | file | terminal =>
    cases h
    exact .inl ⟨k.rtc, rfl⟩

/-- `sys_open` fails, or fills a slot, and then sets the clock or opens the directory. -/
theorem sysOpen_cases {filename : Nat → UInt8} {r : Int} (h : sysOpen k filename = some (k', r)) :
    k' = k ∨ ∃ d f, (∃ c, k' = { k.setFd d f with rtc := c }) ∨
      k' = { k.setFd d f with fs := (dirOpen k.fs filename).1 } := by
  unfold sysOpen at h
  dsimp only at h
  split at h
  · cases h
    exact .inl rfl
  · split at h
    · cases h
      exact .inl rfl
    · obtain ⟨k₁, hk₁, heq⟩ := Option.map_eq_some_iff.1 h
      cases heq
      exact .inr ⟨_, _, fopOpen_cases hk₁⟩

/-- What a `read` does to the state: it restarts the clock, moves on in the directory, moves the position in a file or
takes a line out of the keyboard buffer. -/
private theorem fopRead_cases {d : Fin 8} {nbytes r : Int} {stored : List UInt8} {fop : Fop}
    (h : fopRead k d nbytes fop = some (k', r, stored)) :
    (∃ c, k' = { k with rtc := c }) ∨ k' = { k with fs := (dirRead k.fs).1 } ∨ (∃ d f, k' = k.setFd d f) ∨
      k' = lineTaken k := by
  cases fop with
  | null => cases h
  | rtc =>
    cases h
    exact .inl ⟨_, rfl⟩
  | dir =>
    simp only [fopRead, Option.some.injEq, Prod.mk.injEq] at h
    obtain ⟨rfl, -⟩ := h
    exact .inr (.inl rfl)
  | file =>
    simp only [fopRead, fileReadHelper] at h
    split at h
    · cases h
      exact .inr (.inr (.inl ⟨_, _, rfl⟩))
    · cases h
      exact .inl ⟨k.rtc, rfl⟩
  | terminal =>
    obtain ⟨-, ⟨-, rfl, -⟩ | ⟨count, -, -, rfl, -⟩⟩ := terminalRead_cases h
    · exact .inl ⟨k'.rtc, rfl⟩
    · exact .inr (.inr (.inr rfl))

/-- `sys_read` fails, or does what a `read` does. -/
theorem sysRead_cases {fd nbytes r : Int} {buf : Ptr} {stored : List UInt8}
    (h : sysRead k fd buf nbytes = some (k', r, stored)) :
    (∃ c, k' = { k with rtc := c }) ∨ k' = { k with fs := (dirRead k.fs).1 } ∨ (∃ d f, k' = k.setFd d f) ∨
      k' = lineTaken k := by
  unfold sysRead at h
  split at h
  · cases h
    exact .inl ⟨k.rtc, rfl⟩
  · split at h
    · cases h
      exact .inl ⟨k.rtc, rfl⟩
    · dsimp only at h
      split at h
      · cases h
        exact .inl ⟨k.rtc, rfl⟩
      · exact fopRead_cases h

/-- `sys_write` fails, sets the clock or prints. -/
theorem sysWrite_cases {fd nbytes r : Int} {buf : Ptr} (h : sysWrite k fd buf nbytes = some (k', r)) :
    (∃ c, k' = { k with rtc := c }) ∨ ∃ s, k' = puts k s := by
  unfold sysWrite at h
  split at h
  · cases h
    exact .inl ⟨k.rtc, rfl⟩
  · split at h
    · cases h
      exact .inl ⟨k.rtc, rfl⟩
    · dsimp only at h
      split at h
      · cases h
        exact .inl ⟨k.rtc, rfl⟩
      · generalize (k.fdt (fdIndex fd)).fop_ = fop at h
        cases fop with
        | null => cases h
        | rtc =>
          cases h
          exact .inl ⟨_, rfl⟩
        | dir | file =>
          cases h
          exact .inl ⟨k.rtc, rfl⟩
        | terminal =>
          simp only [fopWrite, terminalWrite, Option.some.injEq, Prod.mk.injEq] at h
          exact .inr ⟨_, h.1.symm⟩

end Returns

/-! ### Processes -/

/-- `get_free_pcb`; `none` is its -1. -/
def getFreePcb (k : Kernel) : Option (Fin 6) :=
  ([0, 1, 2, 3, 4, 5] : List (Fin 6)).find? fun p => !(k.allPcbs p).inUse

/-- `init_pcb` on the descriptor table: all slots closed at position 0, then the two terminal slots opened. -/
def initFdt (fdt : Fin 8 → FdTable) : Fin 8 → FdTable := fun d =>
  if d.val < 2 then { fdt d with fop_ := .terminal, fileType := 3, exists_ := true, fileBytesRead := 0 }
  else { fdt d with exists_ := false, fileBytesRead := 0 }

/-- `init_pcb`. -/
def initPcb (k : Kernel) (p : Fin 6) : Kernel :=
  k.setPcb p fun pcb =>
    { pcb with inUse := true, fdt := initFdt pcb.fdt, args := fun i => if i < 1024 then 0 else pcb.args i }

/-- `while(command[command_index] == ' ') command_index++`. -/
def skipSpaces : List UInt8 → List UInt8
  | [] => []
  | c :: rest => if c = space then skipSpaces rest else c :: rest

/-- The two copying loops of `sys_execute`: the word copied (after `word`) and what is left of the command; `none`
when the word has more than 32 characters (`FILENAME_LEN` and `MAX_COMMAND_LENGTH`). -/
def scanWord : List UInt8 → List UInt8 → Option (List UInt8 × List UInt8)
  | [], word => some (word, [])
  | c :: rest, word =>
    if c = space ∨ c = 0 ∨ c = newline then some (word, c :: rest)
    else if word.length + 1 > 32 then none
    else scanWord rest (word ++ [c])

/-- The way `sys_execute` ends: `return -1`, `iret` to the program's entry point, or a page fault while the file is
checked or copied to its page. -/
inductive ExecResult
  | error
  | launched (eip : Int)
  | faulted
deriving DecidableEq

/-- `all_pcbs[pid_counter].in_use = 0; pid_counter = prev_pid;`, which the failure exits share. -/
def undoExecute (k : Kernel) : Kernel :=
  { k.setPcb k.pidCounter fun pcb => { pcb with inUse := false } with pidCounter := k.prevPid }

/-- `memset(all_pcbs[pid_counter].args, 0, MAX_COMMAND_LENGTH)`. -/
def clearArgs (k : Kernel) : Kernel :=
  k.setPcb k.pidCounter fun pcb => { pcb with args := fun i => if i < 32 then 0 else pcb.args i }

/-- The end of `sys_execute`, after the program has been copied to the frame of the new process. -/
def launch (k : Kernel) (stored : List UInt8) (frame : Frame) : Kernel :=
  let pid := k.pidCounter
  let k := { k with
    paging := updateUserAddr k.paging pid.val
    userMem := Function.update k.userMem pid fun off =>
      if 0x48000 ≤ off ∧ off < 0x48000 + stored.length then stored.getD (off - 0x48000) 0 else k.userMem pid off }
  let k := k.setTerminal k.currTerminal fun t =>
    { t with currProcess := t.currProcess + 1 }.setProc (t.currProcess + 1) pid.val
  let k := { k with tss := { esp0 := kernelStack pid.val, ss0 := 0x18 } }
  k.setPcb pid fun pcb => { pcb with oldEbp := frame.ebp, oldEsp := frame.esp }

/-- `sys_execute`.  `command` is the text up to its NUL, `frame` holds the registers where it saves them.  The copy
starts at `0x8048000`, and nothing is mapped from `0x8400000` on. -/
def sysExecute (k : Kernel) (command : Option (List UInt8)) (frame : Frame) : Kernel × ExecResult :=
  let k := { k with prevPid := k.pidCounter }
  match getFreePcb k with
  | none =>
    let k := puts k (asBytes "pid_counter: -1\n")
    (puts k (asBytes "MAX Program Count reached \n"), .error)
  | some pid =>
    let k := initPcb { k with pidCounter := pid } pid
    match command with
    | none => (undoExecute k, .error)
    | some command =>
      match scanWord (skipSpaces command) [] with
      | none => (undoExecute (puts k (asBytes "Command is too long :(\n")), .error)
      | some (filename, rest) =>
        match scanWord (skipSpaces rest) [] with
        | none => (undoExecute (clearArgs (puts k (asBytes "Filename is too long :(\n"))), .error)
        | some (args, _) =>
          let k := k.setPcb pid fun pcb =>
            { pcb with args := fun i => if i < args.length then args.getD i 0 else pcb.args i }
          let temp := readDentryByName k.fs (cString filename) emptyDentry
          if temp.2 = -1 then (undoExecute (clearArgs k), .error)
          else
            match execCheck k.fs temp.1.inodeNum with
            | none => (k, .faulted)
            | some eip =>
              if eip = -1 then (undoExecute (clearArgs k), .error)
              else
                let stored := execFileLoad k.fs temp.1.inodeNum 0 (4096 * 1024)
                if 0x8048000 + stored.length > 0x8400000 then
                  ({ k with paging := updateUserAddr k.paging pid.val }, .faulted)
                else (launch k stored frame, .launched eip)

/-- The way `sys_halt` ends: in user mode of a relaunched shell, at the label `here` with the saved registers of the
halting process and a value in `%eax`, or in a page fault of the nested `sys_execute`. -/
inductive HaltResult
  | relaunched (eip : Int)
  | resumed (frame : Frame) (eax : Int)
  | faulted
deriving DecidableEq

/-- The loop of `sys_halt` over the descriptors. -/
def closeAll (k : Kernel) : Kernel :=
  ([0, 1, 2, 3, 4, 5, 6, 7] : List Int).foldl (fun k fd => (sysClose k fd).1) k

/-- The end of `sys_halt`, when no shell was relaunched. -/
def haltReturn (k : Kernel) (status : UInt8) : Kernel × HaltResult :=
  let k := k.setTerminal k.currTerminal fun t =>
    let t := t.setProc t.currProcess (-1)
    { t with currProcess := t.currProcess - 1 }
  let k := { k with
    paging := updateUserAddr k.paging k.prevPid.val
    tss := { esp0 := kernelStack k.prevPid.val, ss0 := 0x18 } }
  let frame : Frame := { ebp := (k.allPcbs k.pidCounter).oldEbp, esp := (k.allPcbs k.pidCounter).oldEsp }
  let k := { k with pidCounter := k.prevPid }
  if k.flagException then ({ k with flagException := false }, .resumed frame 256)
  else (k, .resumed frame status.toNat)

/-- `sys_halt`. -/
def sysHalt (k : Kernel) (status : UInt8) (frame : Frame) : Kernel × HaltResult :=
  let k := closeAll k
  let k := k.setPcb k.pidCounter fun pcb => { pcb with inUse := false }
  if 0 < k.pidCounter.val ∧ k.pidCounter.val < 3 then
    match sysExecute k (some (asBytes "shell")) frame with
    | (k, .launched eip) => (k, .relaunched eip)
    | (k, .faulted) => (k, .faulted)
    | (k, .error) => haltReturn k status
  else haltReturn k status

/-! ### Arguments -/

/-- What a call of `sys_getargs` returns, the indices of `args` it reads, and its stores to `buf` in order. -/
structure Getargs where
  result : Int
  loads : List Nat
  stores : List (Int × UInt8)

/-- `sys_getargs`.  A negative length makes `memcpy` run into an unmapped page. -/
def sysGetargs (k : Kernel) (nbytes : Int) : Option (Kernel × Getargs) :=
  let args := (k.allPcbs k.pidCounter).args
  if args 0 = 0 then some (k, { result := -1, loads := [0], stores := [] })
  else if nbytes < 0 then none
  else
    let copied := List.range nbytes.toNat
    some (clearArgs k,
      { result := 0
        loads := 0 :: copied
        stores := copied.map (fun i : Nat => ((i : Int), args i)) ++ [(toInt32 (nbytes + 1), 0)] })

/-! ### Video memory -/

/-- `sys_vidmap`: the pointer is the address `screen_start`.  The last addresses that pass the test are so near the end
of the user page that the store runs out of it and faults. -/
def sysVidmap (k : Kernel) (screenStart : Nat) : Option (Kernel × Int) :=
  if screenStart = 0 ∨ screenStart < 0x8000000 ∨ screenStart > 0x8400000 then some (k, -1)
  else if screenStart + 4 > 0x8400000 then none
  else
    let userMem := storeAt (k.userMem k.pidCounter) (screenStart - 0x8000000)
      (wordBytes (0x8400000 + termPage k.onScreen))
    some ({ k with userMem := Function.update k.userMem k.pidCounter userMem }, 0)

end BigChungOS
