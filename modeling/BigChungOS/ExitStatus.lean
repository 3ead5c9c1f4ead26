import BigChungOS.Descriptors
import BigChungOS.Keyboard
import BigChungOS.RunningProcess

/-!
# What `sys_execute` returns

A program ends in `sys_halt`, which puts the status, or 256 after an exception, in `%eax` and jumps to the label `here`
in the `sys_execute` call that launched the program.  The statement after the label is `return 0`, so the call returns 0
whatever `%eax` holds (`executeReturn`).

The frame that call has saved is on the kernel stack its caller has trapped on, the one `tss.esp0` named then
(`PendingCall`).  Every trap from user mode starts at the top of the stack of `tss.esp0`, and so overwrites the calls
that wait on that stack (`trapOn`).  A new program has a stack of its own, but after a switch of terminals and a tick
`tss.esp0` may name the stack its caller waits on.  Which stack a call waits on is all the model has of these stacks:
that none of them grows beyond its 8 KB is taken for granted, and what runs once an overwritten frame is resumed is left
open.

The calls that have not returned yet are followed through all the kernel does (`KeepsCalls`): what `sys_execute` has
noted of its frame stays in the PCB of its program as long as the program runs.  So the call is resumed by the halt of
the program, when `pid_counter` names it, it is not relaunched as a shell and its frame is intact, and then it has the
right value exactly when the status is 0 and there was no exception (`exit_status_iff`).
-/

namespace BigChungOS

open Transition

/-- The value `sys_execute` returns when it is resumed at `here` with `eax` in `%eax`. -/
def executeReturn (_eax : Int) : Int := 0

/-- The `sys_execute` call a halt resumes, by the frame the call has saved, and the value it returns if that frame is
intact. -/
def HaltResult.outcome : HaltResult → Option (Frame × Int)
  | .resumed frame eax => some (frame, executeReturn eax)
  | .relaunched _ | .faulted => none

/-- The frame saved by the call that launched process `p`. -/
def Kernel.oldFrame (k : Kernel) (p : Fin 6) : Frame := { ebp := (k.allPcbs p).oldEbp, esp := (k.allPcbs p).oldEsp }

/-! ### The frames stay in the PCBs -/

/-- If `p` is in use, it stays so, with the frame of the call that launched it. -/
def CallKept (k k' : Kernel) (p : Fin 6) : Prop := k.inUse p = true → k'.inUse p = true ∧ k'.oldFrame p = k.oldFrame p

/-- The calls that have launched the processes in use, the exception flag and the files stay as they are. -/
structure KeepsCalls (k k' : Kernel) : Prop where
  fs : ∃ n, k'.fs = { k.fs with currDir := n }
  flagException : k'.flagException = k.flagException
  calls : ∀ p, CallKept k k' p

section Keep

variable {k k' k'' : Kernel}

private theorem callKept_of_pcb {p : Fin 6} (h : k'.allPcbs p = k.allPcbs p) : CallKept k k' p := by
  intro hp
  rw [Kernel.inUse, Kernel.oldFrame, h]
  exact ⟨hp, rfl⟩

theorem CallKept.trans {p : Fin 6} (h : CallKept k k' p) (h' : CallKept k' k'' p) : CallKept k k'' p := by
  intro hp
  obtain ⟨huse, hframe⟩ := h hp
  obtain ⟨huse', hframe'⟩ := h' huse
  exact ⟨huse', hframe'.trans hframe⟩

theorem keepsCalls_of_pcbs (hfs : k'.fs = k.fs) (hflag : k'.flagException = k.flagException)
    (hpcbs : k'.allPcbs = k.allPcbs) : KeepsCalls k k' where
  fs := ⟨k.fs.currDir, hfs⟩
  flagException := hflag
  calls p := callKept_of_pcb (congrFun hpcbs p)

theorem KeepsCalls.trans (h : KeepsCalls k k') (h' : KeepsCalls k' k'') : KeepsCalls k k'' where
  fs := by
    obtain ⟨n, hn⟩ := h.fs
    obtain ⟨n', hn'⟩ := h'.fs
    exact ⟨n', by rw [hn', hn]⟩
  flagException := h'.flagException.trans h.flagException
  calls p := (h.calls p).trans (h'.calls p)

/-- A store to a PCB that leaves its `in_use` and its frame alone. -/
private theorem setPcb_keepsCalls (k : Kernel) (p : Fin 6) {f : Pcb → Pcb} (huse : ∀ pcb, (f pcb).inUse = pcb.inUse)
    (hebp : ∀ pcb, (f pcb).oldEbp = pcb.oldEbp) (hesp : ∀ pcb, (f pcb).oldEsp = pcb.oldEsp) :
    KeepsCalls k (k.setPcb p f) where
  fs := ⟨k.fs.currDir, rfl⟩
  flagException := rfl
  calls q := by
    by_cases hq : q = p
    · subst hq
      intro h
      simp only [Kernel.inUse, Kernel.oldFrame, setPcb_allPcbs, Function.update_self, huse, hebp, hesp]
      exact ⟨h, trivial⟩
    · exact callKept_of_pcb (by rw [setPcb_allPcbs, Function.update_of_ne hq])

private theorem puts_keepsCalls (k : Kernel) (s : List UInt8) : KeepsCalls k (puts k s) := by
  rw [puts_eq]
  exact keepsCalls_of_pcbs rfl rfl rfl

theorem sysExecute_keepsCalls (k : Kernel) (command : Option (List UInt8)) (frame : Frame) :
    KeepsCalls k (sysExecute k command frame).1 where
  fs := ⟨k.fs.currDir, (sysExecute_sameDevices k command frame).fs⟩
  flagException := (sysExecute_sameDevices k command frame).flagException
  calls _ hp := callKept_of_pcb (sysExecute_pcb k command frame hp) hp

/-- The end of `sys_halt` resumes the call whose frame is in the PCB of `pid_counter`, and clears the flag. -/
private theorem haltReturn_result (k : Kernel) (status : UInt8) :
    (haltReturn k status).2 = .resumed (k.oldFrame k.pidCounter) (if k.flagException then 256 else status.toNat) ∧
      (haltReturn k status).1.flagException = false := by
  unfold haltReturn
  dsimp only
  rw [setTerminal_flagException]
  cases hflag : k.flagException with
  | true => exact ⟨rfl, rfl⟩
  | false =>
    simp only [Bool.false_eq_true, if_false]
    exact ⟨rfl, trivial⟩

private theorem switchTo_keepsCalls (k : Kernel) (t : Fin 3) : KeepsCalls k (switchTo k t) := by
  refine keepsCalls_of_pcbs ?_ ?_ ?_ <;> simp [switchTo, saveCursor, loadCursor, updateScreenAxis]

private theorem switchTerminalKeypress_keepsCalls (k : Kernel) (targetTerminal : Nat) :
    KeepsCalls k (switchTerminalKeypress k targetTerminal) := by
  unfold switchTerminalKeypress
  split
  · exact keepsCalls_of_pcbs rfl rfl rfl
  · exact switchTo_keepsCalls k _

/-! ### The calls on files -/

theorem FilesOnly.keepsCalls (h : FilesOnly k k') : KeepsCalls k k' where
  fs := h.fs
  flagException := h.flagException
  calls p := by
    obtain ⟨fdt, hfdt⟩ := h.pcbs
    by_cases hp : p = k.pidCounter
    · subst hp
      intro huse
      simp only [Kernel.inUse, Kernel.oldFrame, hfdt, Function.update_self]
      exact ⟨huse, trivial⟩
    · exact callKept_of_pcb (by rw [hfdt, Function.update_of_ne hp])

theorem sysOpen_keepsCalls {filename : Nat → UInt8} {r : Int} (hdir : k.fs.dirIsOpen = true)
    (hopen : sysOpen k filename = some (k', r)) : KeepsCalls k k' := by
  rcases sysOpen_cases hopen with rfl | ⟨d, f, ⟨c, rfl⟩ | rfl⟩
  · exact (FilesOnly.refl k').keepsCalls
  · exact (setFd_filesOnly k d f).keepsCalls.trans (keepsCalls_of_pcbs rfl rfl rfl)
  · have hdir₁ : (k.setFd d f).fs.dirIsOpen = true := hdir
    obtain ⟨k₂, hk₂, honly, -⟩ := fopOpen_spec (.inr (.inl ⟨rfl, rfl⟩)) hdir₁ filename
    cases hk₂
    exact (setFd_filesOnly k d f).keepsCalls.trans honly.keepsCalls

theorem sysRead_keepsCalls {fd nbytes r : Int} {buf : Ptr} {stored : List UInt8}
    (hread : sysRead k fd buf nbytes = some (k', r, stored)) : KeepsCalls k k' := by
  rcases sysRead_cases hread with ⟨c, rfl⟩ | rfl | ⟨d, f, rfl⟩ | rfl
  · exact keepsCalls_of_pcbs rfl rfl rfl
  · exact { fs := dirRead_fs k.fs, flagException := rfl, calls := fun _ => callKept_of_pcb rfl }
  · exact (setFd_filesOnly k d f).keepsCalls
  · exact keepsCalls_of_pcbs rfl rfl rfl

theorem sysWrite_keepsCalls {fd nbytes r : Int} {buf : Ptr} (hwrite : sysWrite k fd buf nbytes = some (k', r)) :
    KeepsCalls k k' := by
  rcases sysWrite_cases hwrite with ⟨c, rfl⟩ | ⟨s, rfl⟩
  · exact keepsCalls_of_pcbs rfl rfl rfl
  · exact puts_keepsCalls k s

theorem sysGetargs_keepsCalls {nbytes : Int} {g : Getargs} (h : sysGetargs k nbytes = some (k', g)) :
    KeepsCalls k k' := by
  unfold sysGetargs at h
  dsimp only at h
  split_ifs at h
  · cases h
    exact keepsCalls_of_pcbs rfl rfl rfl
  · cases h
    exact setPcb_keepsCalls k k.pidCounter (fun _ => rfl) (fun _ => rfl) fun _ => rfl

theorem sysVidmap_keepsCalls {screenStart : Nat} {r : Int} (h : sysVidmap k screenStart = some (k', r)) :
    KeepsCalls k k' := by
  unfold sysVidmap at h
  split_ifs at h <;> cases h <;> exact keepsCalls_of_pcbs rfl rfl rfl

/-! ### The keyboard and the timer -/

theorem keyboardHandler_keepsCalls (k : Kernel) (scanCode : Nat) (past : UInt8) :
    KeepsCalls k (keyboardHandler k scanCode past).1 := by
  have hsame : KeepsCalls k k := keepsCalls_of_pcbs rfl rfl rfl
  refine keyboardHandler_keeps (P := KeepsCalls k) hsame scanCode past ?_ ?_ ?_ ?_ ?_ ?_
  · exact fun _ _ _ h => h.trans (keepsCalls_of_pcbs rfl rfl rfl)
  · exact fun _ _ h => h.trans (keepsCalls_of_pcbs rfl rfl rfl)
  · exact fun _ h => h.trans (keepsCalls_of_pcbs rfl rfl rfl)
  · exact fun _ h => h.trans (keepsCalls_of_pcbs rfl rfl rfl)
  · exact fun _ h => h.trans (keepsCalls_of_pcbs rfl rfl rfl)
  · exact fun k n h => h.trans (switchTerminalKeypress_keepsCalls k n)

private theorem saveCursor_keepsCalls (k : Kernel) (t : Fin 3) : KeepsCalls k (saveCursor k t) :=
  keepsCalls_of_pcbs rfl rfl rfl

private theorem pitSave_keepsCalls (k : Kernel) (frame : Frame) : KeepsCalls k (pitSave k frame) := by
  have hebp := setPcb_keepsCalls k (k.curr.ebp k.curr.currProcess) (f := fun pcb => { pcb with ebpTask := frame.ebp })
    (fun _ => rfl) (fun _ => rfl) fun _ => rfl
  have hesp := fun k' : Kernel => setPcb_keepsCalls k' (k'.curr.esp k'.curr.currProcess)
    (f := fun pcb => { pcb with espTask := frame.esp }) (fun _ => rfl) (fun _ => rfl) fun _ => rfl
  exact (hebp.trans (hesp _)).trans (saveCursor_keepsCalls _ _)

/-- The part of a tick that makes another terminal current. -/
private theorem switchTerminalWork_keepsCalls (k : Kernel) (t u : Fin 3) (n : Nat) :
    KeepsCalls k { switchTerminalWork { k with currTerminal := t } u with pitCount := n } :=
  keepsCalls_of_pcbs rfl rfl rfl

private theorem pitSelect_keepsCalls (k : Kernel) (t : Fin 3) : KeepsCalls k (pitSelect k t) :=
  keepsCalls_of_pcbs rfl rfl rfl

private theorem pitReturn_keepsCalls (k : Kernel) : KeepsCalls k (pitReturn k).1 := keepsCalls_of_pcbs rfl rfl rfl

theorem pitHandler_keepsCalls (k : Kernel) (frame execFrame : Frame) :
    KeepsCalls k (pitHandler k frame execFrame).1 := by
  refine pitHandler_keeps (P := KeepsCalls k) (pitSave_keepsCalls k frame) ?_ ?_ ?_ ?_ ?_
  · exact fun _ t h => h.trans (pitSelect_keepsCalls _ t)
  · exact fun _ s h => h.trans (puts_keepsCalls _ s)
  · exact fun _ h => h.trans (sysExecute_keepsCalls _ _ execFrame)
  · exact fun _ h => h.trans (switchTerminalWork_keepsCalls _ 0 0 4)
  · exact fun _ h => h.trans (pitReturn_keepsCalls _)

/-! ### The end of a program -/

private theorem released_oldFrame (k : Kernel) :
    (released k).oldFrame (released k).pidCounter = k.oldFrame k.pidCounter := by
  obtain ⟨hebp, hesp⟩ := (released_spec k).oldFrame
  rw [(released_spec k).pidCounter, Kernel.oldFrame, hebp, hesp, Kernel.oldFrame]

/-- The halt of any other process resumes the call that launched it. -/
theorem sysHalt_resumes (hother : ¬(0 < k.pidCounter.val ∧ k.pidCounter.val < 3)) (status : UInt8) (frame : Frame) :
    (sysHalt k status frame).2 = .resumed (k.oldFrame k.pidCounter) (if k.flagException then 256 else status.toNat) ∧
      (sysHalt k status frame).1.flagException = false := by
  have hresult := haltReturn_result (released k) status
  have hflag : (released k).flagException = k.flagException := (closeAll_filesOnly k).flagException
  rw [sysHalt_of_other hother]
  rwa [released_oldFrame, hflag] at hresult

/-- A relaunch leaves the exception flag as it is. -/
private theorem Launched.relaunch_flagException {frame : Frame} (h : Launched (released k) frame k') :
    k'.flagException = k.flagException := h.flagException.trans (closeAll_filesOnly k).flagException

theorem sysHalt_callKept (status : UInt8) (frame : Frame) {p : Fin 6} (hp : p ≠ k.pidCounter) :
    CallKept k (sysHalt k status frame).1 p :=
  fun huse => callKept_of_pcb (sysHalt_pcb k status frame huse hp) huse

end Keep

/-! ### Programs and their calls -/

/-- A `sys_execute` call that has not returned: the program it has launched, the frame it has saved, the kernel stack
that frame is on, and whether nothing has been written over it since. -/
structure PendingCall where
  program : Fin 6
  frame : Frame
  stack : Nat
  intact : Bool
  deriving DecidableEq

/-- A trap from user mode starts at the top of the stack `esp0`, over the calls that wait on it. -/
def trapOn (esp0 : Nat) (pending : List PendingCall) : List PendingCall :=
  pending.map fun c => if c.stack = esp0 then { c with intact := false } else c

/-- The end of a program: the frame of the call that launched it, the status it ended with (256 for an exception), and
the call its halt resumed, with the value that call returned. -/
structure Delivery where
  call : Frame
  status : Int
  outcome : Option (Frame × Int)

/-- The launching call has returned the status. -/
def Delivery.Delivered (d : Delivery) : Prop := d.outcome = some (d.call, d.status)

instance (d : Delivery) : Decidable d.Delivered := inferInstanceAs (Decidable (d.outcome = some (d.call, d.status)))

/-- What runs: a program, the kernel on one of the stacks, or whatever an overwritten frame leads to. -/
inductive Running
  | user
  | kernel (stack : Nat)
  | stray

/-- The kernel with what runs, the calls that wait and the programs that have ended. -/
structure Executions where
  kernel : Kernel
  running : Running
  pending : List PendingCall
  ended : List Delivery

/-- What the kernel does other than to start or end a program: calls on files, the other calls, keys, ticks (the first
three launch base shells), the clock and terminal switches. -/
inductive OtherStep : Kernel → Kernel → Prop
  | open_ {k k' : Kernel} {filename : Nat → UInt8} {r : Int} (h : sysOpen k filename = some (k', r)) : OtherStep k k'
  | close {k : Kernel} {fd : Int} : OtherStep k (sysClose k fd).1
  | read {k k' : Kernel} {fd nbytes r : Int} {buf : Ptr} {stored : List UInt8}
      (h : sysRead k fd buf nbytes = some (k', r, stored)) : OtherStep k k'
  | write {k k' : Kernel} {fd nbytes r : Int} {buf : Ptr} (h : sysWrite k fd buf nbytes = some (k', r)) : OtherStep k k'
  | getargs {k k' : Kernel} {nbytes : Int} {g : Getargs} (h : sysGetargs k nbytes = some (k', g)) : OtherStep k k'
  | vidmap {k k' : Kernel} {screenStart : Nat} {r : Int} (h : sysVidmap k screenStart = some (k', r)) : OtherStep k k'
  | key {k : Kernel} {scanCode : Nat} {past : UInt8} : OtherStep k (keyboardHandler k scanCode past).1
  | tick {k : Kernel} {frame execFrame : Frame} : OtherStep k (pitHandler k frame execFrame).1
  | clock {k : Kernel} : OtherStep k { k with rtc := handleRtc k.rtc }
  | switch {k : Kernel} {targetTerminal : Nat} : OtherStep k (switchTerminalKeypress k targetTerminal)

/-- Where the jump to `here` leads, from a halt on `stack` with the given result: to the call of the process that
`pid_counter` names if its frame is intact, and to the shell if one has been relaunched. -/
inductive Resumes (k : Kernel) (pending : List PendingCall) (stack : Nat) (result : HaltResult) :
    Option (Frame × Int) → Running → Prop
  | call {frame : Frame} {eax : Int} {c : PendingCall} (hres : result = .resumed frame eax) (hc : c ∈ pending)
      (hprogram : c.program = k.pidCounter) (hintact : c.intact = true) :
      Resumes k pending stack result result.outcome (.kernel c.stack)
  | overwritten {frame : Frame} {eax : Int} {outcome : Option (Frame × Int)} (hres : result = .resumed frame eax)
      (hgone : ∀ c ∈ pending, c.program = k.pidCounter → c.intact = false) :
      Resumes k pending stack result outcome .stray
  | shell {eip : Int} (hres : result = .relaunched eip) : Resumes k pending stack result none .user
  | faulted (hres : result = .faulted) : Resumes k pending stack result none (.kernel stack)

inductive ExitEvent
  | trap
  | leave
  | execute (command : Option (List UInt8)) (frame : Frame)
  | halt (program : Fin 6) (status : UInt8) (frame : Frame)
  | exception (program : Fin 6) (message : List UInt8) (frame : Frame)
  | baseHalt (status : UInt8) (frame : Frame)
  | baseException (message : List UInt8) (frame : Frame)
  | other

/-- A trap from user mode, or the return to it; in the kernel, a `sys_execute`, the halt of a program or an exception in
it, the same of a base shell, or something else. -/
inductive ExitStep : Executions → ExitEvent → Executions → Prop
  | trap {k : Kernel} {pending : List PendingCall} {ended : List Delivery} :
      ExitStep ⟨k, .user, pending, ended⟩ .trap ⟨k, .kernel k.tss.esp0, trapOn k.tss.esp0 pending, ended⟩
  | leave {k : Kernel} {stack : Nat} {pending : List PendingCall} {ended : List Delivery} :
      ExitStep ⟨k, .kernel stack, pending, ended⟩ .leave ⟨k, .user, pending, ended⟩
  | launched {k : Kernel} {stack : Nat} {pending : List PendingCall} {ended : List Delivery}
      {command : Option (List UInt8)} {frame : Frame} {eip : Int}
      (h : (sysExecute k command frame).2 = .launched eip) :
      ExitStep ⟨k, .kernel stack, pending, ended⟩ (.execute command frame)
        ⟨(sysExecute k command frame).1, .user,
          ⟨(sysExecute k command frame).1.pidCounter, frame, stack, true⟩ :: pending, ended⟩
  | notLaunched {k : Kernel} {stack : Nat} {pending : List PendingCall} {ended : List Delivery}
      {command : Option (List UInt8)} {frame : Frame} (h : ∀ eip, (sysExecute k command frame).2 ≠ .launched eip) :
      ExitStep ⟨k, .kernel stack, pending, ended⟩ (.execute command frame)
        ⟨(sysExecute k command frame).1, .kernel stack, pending, ended⟩
  | halt {k : Kernel} {stack : Nat} {running : Running} {pending : List PendingCall} {ended : List Delivery}
      {c : PendingCall} {status : UInt8} {frame : Frame} {outcome : Option (Frame × Int)} (h : c ∈ pending)
      (hresumes : Resumes k pending stack (sysHalt k status frame).2 outcome running) :
      ExitStep ⟨k, .kernel stack, pending, ended⟩ (.halt c.program status frame)
        ⟨(sysHalt k status frame).1, running, pending.filter (·.program ≠ c.program),
          ⟨c.frame, status.toNat, outcome⟩ :: ended⟩
  | exception {k : Kernel} {stack : Nat} {running : Running} {pending : List PendingCall} {ended : List Delivery}
      {c : PendingCall} {message : List UInt8} {frame : Frame} {outcome : Option (Frame × Int)} (h : c ∈ pending)
      (hresumes : Resumes k pending stack (raiseException k message frame).2 outcome running) :
      ExitStep ⟨k, .kernel stack, pending, ended⟩ (.exception c.program message frame)
        ⟨(raiseException k message frame).1, running, pending.filter (·.program ≠ c.program),
          ⟨c.frame, 256, outcome⟩ :: ended⟩
  | baseHalt {k : Kernel} {stack : Nat} {running : Running} {pending : List PendingCall} {ended : List Delivery}
      {status : UInt8} {frame : Frame} {outcome : Option (Frame × Int)}
      (hresumes : Resumes k pending stack (sysHalt k status frame).2 outcome running) :
      ExitStep ⟨k, .kernel stack, pending, ended⟩ (.baseHalt status frame)
        ⟨(sysHalt k status frame).1, running, pending, ended⟩
  | baseException {k : Kernel} {stack : Nat} {running : Running} {pending : List PendingCall} {ended : List Delivery}
      {message : List UInt8} {frame : Frame} {outcome : Option (Frame × Int)}
      (hresumes : Resumes k pending stack (raiseException k message frame).2 outcome running) :
      ExitStep ⟨k, .kernel stack, pending, ended⟩ (.baseException message frame)
        ⟨(raiseException k message frame).1, running, pending, ended⟩
  | other {k k' : Kernel} {stack : Nat} {pending : List PendingCall} {ended : List Delivery} (h : OtherStep k k') :
      ExitStep ⟨k, .kernel stack, pending, ended⟩ .other ⟨k', .kernel stack, pending, ended⟩

/-- Every call has returned the status of its program, and the exception flag is clear. -/
def AllDelivered (s : Executions) : Prop := (∀ d ∈ s.ended, d.Delivered) ∧ s.kernel.flagException = false

/-- When a program ends, `pid_counter` names it and its call is intact; when a base shell ends, `pid_counter` names none
of the programs. -/
def OwnCall (s : Executions) : ExitEvent → Prop
  | .halt program _ _ | .exception program _ _ =>
    s.kernel.pidCounter = program ∧ ∃ c ∈ s.pending, c.program = program ∧ c.intact = true
  | .baseHalt _ _ | .baseException _ _ => ∀ c ∈ s.pending, c.program ≠ s.kernel.pidCounter
  | .trap | .leave | .execute _ _ | .other => True

/-- A program halts with status 0, and not as process 1 or 2; and no exception ends a program, or a shell that is
relaunched. -/
def StatusKept (s : Executions) : ExitEvent → Prop
  | .halt program status _ => status = 0 ∧ ¬(0 < program.val ∧ program.val < 3)
  | .exception _ _ _ => False
  | .baseException _ _ => ¬(0 < s.kernel.pidCounter.val ∧ s.kernel.pidCounter.val < 3)
  | .trap | .leave | .execute _ _ | .baseHalt _ _ | .other => True

/-- What holds of the calls that wait: the PCBs of their programs are in use, and have their frames. -/
structure ExecutionsOk (s : Executions) : Prop where
  calls : ∀ c ∈ s.pending, s.kernel.inUse c.program = true ∧ s.kernel.oldFrame c.program = c.frame
  shell : ∃ eip, execOutcome s.kernel.fs (some (asBytes "shell")) = .launched eip
  dirIsOpen : s.kernel.fs.dirIsOpen = true

section Step

variable {k k' : Kernel} {stack : Nat} {running running' : Running} {pending pending' : List PendingCall}
  {ended ended' : List Delivery} {outcome : Option (Frame × Int)}

/-- The files stay mounted with their shell. -/
private theorem shell_kept (h : ExecutionsOk ⟨k, running, pending, ended⟩)
    (hfs : ∃ n, k'.fs = { k.fs with currDir := n }) :
    (∃ eip, execOutcome k'.fs (some (asBytes "shell")) = .launched eip) ∧ k'.fs.dirIsOpen = true := by
  obtain ⟨n, hn⟩ := hfs
  obtain ⟨eip, heip⟩ := h.shell
  have heip' : execOutcome k.fs (some (asBytes "shell")) = .launched eip := heip
  rw [hn, execOutcome_currDir]
  exact ⟨⟨eip, heip'⟩, h.dirIsOpen⟩

theorem ExecutionsOk.keep (h : ExecutionsOk ⟨k, running, pending, ended⟩) (hk : KeepsCalls k k') :
    ExecutionsOk ⟨k', running', pending, ended'⟩ where
  calls c hc := by
    obtain ⟨huse, hframe⟩ := h.calls c hc
    obtain ⟨huse', hframe'⟩ := hk.calls c.program huse
    exact ⟨huse', hframe'.trans hframe⟩
  shell := (shell_kept h hk.fs).1
  dirIsOpen := (shell_kept h hk.fs).2

/-- A trap changes only whether a call is intact. -/
private theorem mem_trapOn {esp0 : Nat} {c : PendingCall} (hc : c ∈ trapOn esp0 pending) :
    ∃ d ∈ pending, c.program = d.program ∧ c.frame = d.frame := by
  obtain ⟨d, hd, rfl⟩ := List.mem_map.1 hc
  refine ⟨d, hd, ?_⟩
  split <;> exact ⟨rfl, rfl⟩

private theorem ExecutionsOk.trap (h : ExecutionsOk ⟨k, running, pending, ended⟩) (esp0 : Nat) :
    ExecutionsOk ⟨k, running', trapOn esp0 pending, ended⟩ where
  calls c hc := by
    obtain ⟨d, hd, hprogram, hframe⟩ := mem_trapOn hc
    rw [hprogram, hframe]
    exact h.calls d hd
  shell := h.shell
  dirIsOpen := h.dirIsOpen

/-- The call of a new program is the one whose frame is in its PCB. -/
theorem ExecutionsOk.launch {command : Option (List UInt8)} {frame : Frame} {eip : Int}
    (h : ExecutionsOk ⟨k, running, pending, ended⟩) (hres : (sysExecute k command frame).2 = .launched eip)
    (stack : Nat) (intact : Bool) :
    ExecutionsOk ⟨(sysExecute k command frame).1, running',
      ⟨(sysExecute k command frame).1.pidCounter, frame, stack, intact⟩ :: pending, ended⟩ := by
  have hkept : ExecutionsOk ⟨(sysExecute k command frame).1, running', pending, ended⟩ :=
    h.keep (sysExecute_keepsCalls k command frame)
  have hlaunch := sysExecute_launched hres
  refine { hkept with calls := fun c hc => ?_ }
  rcases List.mem_cons.1 hc with rfl | hc
  · obtain ⟨hebp, hesp⟩ := hlaunch.oldFrame
    refine ⟨hlaunch.inUse, ?_⟩
    dsimp only
    rw [Kernel.oldFrame, hebp, hesp]
  · exact hkept.calls c hc

/-- The halt of the process of `pid_counter` leaves the other programs their calls. -/
theorem ExecutionsOk.halt (h : ExecutionsOk ⟨k, running, pending, ended⟩) (status : UInt8) (frame : Frame)
    (hsub : ∀ c ∈ pending', c ∈ pending ∧ c.program ≠ k.pidCounter) :
    ExecutionsOk ⟨(sysHalt k status frame).1, running', pending', ended'⟩ where
  calls c hc := by
    obtain ⟨hmem, hne⟩ := hsub c hc
    obtain ⟨huse, hframe⟩ := h.calls c hmem
    obtain ⟨huse', hframe'⟩ := sysHalt_callKept status frame hne huse
    exact ⟨huse', hframe'.trans hframe⟩
  shell := (shell_kept h (sysHalt_fs k status frame)).1
  dirIsOpen := (shell_kept h (sysHalt_fs k status frame)).2

/-- What is left when a program ends. -/
private theorem filter_ended {program : Fin 6} (hpid : k.pidCounter = program) :
    ∀ c ∈ pending.filter (·.program ≠ program), c ∈ pending ∧ c.program ≠ k.pidCounter := by
  intro c hc
  rw [List.mem_filter] at hc
  exact ⟨hc.1, by simpa [hpid] using hc.2⟩

/-- The handler of an exception halts the process with the flag set. -/
private theorem raised_ok (h : ExecutionsOk ⟨k, running, pending, ended⟩) (message : List UInt8) :
    ExecutionsOk ⟨{ puts k message with flagException := true }, running, pending, ended⟩ := by
  obtain ⟨hcalls, hshell, hdir⟩ : ExecutionsOk ⟨puts k message, running, pending, ended⟩ :=
    h.keep (puts_keepsCalls k message)
  exact ⟨hcalls, hshell, hdir⟩

private theorem raised_pidCounter (k : Kernel) (message : List UInt8) :
    ({ puts k message with flagException := true } : Kernel).pidCounter = k.pidCounter := by
  rw [puts_eq]

private theorem otherStep_keepsCalls (hdir : k.fs.dirIsOpen = true) (h : OtherStep k k') : KeepsCalls k k' := by
  cases h with
  | open_ hopen => exact sysOpen_keepsCalls hdir hopen
  | close => exact (sysClose_filesOnly k _).keepsCalls
  | read hread => exact sysRead_keepsCalls hread
  | write hwrite => exact sysWrite_keepsCalls hwrite
  | getargs hgetargs => exact sysGetargs_keepsCalls hgetargs
  | vidmap hvidmap => exact sysVidmap_keepsCalls hvidmap
  | key => exact keyboardHandler_keepsCalls k _ _
  | tick => exact pitHandler_keepsCalls k _ _
  | clock => exact keepsCalls_of_pcbs rfl rfl rfl
  | switch => exact switchTerminalKeypress_keepsCalls k _

/-- The programs that run keep their calls. -/
private theorem exitStep_ok {s t : Executions} {e : ExitEvent} (h : ExecutionsOk s) (hown : OwnCall s e)
    (hstep : ExitStep s e t) : ExecutionsOk t := by
  cases hstep with
  | trap => exact h.trap _
  | leave => exact ⟨h.calls, h.shell, h.dirIsOpen⟩
  | launched hres => exact h.launch hres _ _
  | notLaunched => exact h.keep (sysExecute_keepsCalls _ _ _)
  | halt => exact h.halt _ _ (filter_ended hown.1)
  | @exception k stack running pending ended c message frame =>
    refine (raised_ok h message).halt 0 frame ?_
    rw [raised_pidCounter]
    exact filter_ended hown.1
  | baseHalt => exact h.halt _ _ fun c hc => ⟨hc, hown c hc⟩
  | @baseException k stack running pending ended message frame =>
    refine (raised_ok h message).halt 0 frame fun c hc => ⟨hc, ?_⟩
    rw [raised_pidCounter]
    exact hown c hc
  | other hother => exact h.keep (otherStep_keepsCalls h.dirIsOpen hother)

/-- If the call of the process of `pid_counter` is intact, the halt resumes it. -/
private theorem Resumes.outcome_eq {result : HaltResult} (h : Resumes k pending stack result outcome running)
    (hintact : ∃ c ∈ pending, c.program = k.pidCounter ∧ c.intact = true) : outcome = result.outcome := by
  cases h with
  | call => rfl
  | overwritten hres hgone =>
    obtain ⟨c, hc, hprogram, hc'⟩ := hintact
    rw [hgone c hc hprogram] at hc'
    cases hc'
  | shell hres | faulted hres =>
    rw [hres]
    rfl

/-- The call of a program that halts gets its status exactly when that is 0 and the program is not relaunched. -/
private theorem halt_delivered_iff (h : ExecutionsOk ⟨k, running, pending, ended⟩)
    (hq : AllDelivered ⟨k, running, pending, ended⟩) {c : PendingCall} {status : UInt8} {frame : Frame}
    (hmem : c ∈ pending) (hpid : k.pidCounter = c.program) :
    AllDelivered ⟨(sysHalt k status frame).1, running', pending',
      ⟨c.frame, status.toNat, (sysHalt k status frame).2.outcome⟩ :: ended⟩ ↔
      status = 0 ∧ ¬(0 < k.pidCounter.val ∧ k.pidCounter.val < 3) := by
  by_cases hbase : 0 < k.pidCounter.val ∧ k.pidCounter.val < 3
  -- a shell takes the place of the program, and no call is resumed
  · obtain ⟨eip, hshell⟩ := h.shell
    obtain ⟨hres, -⟩ := sysHalt_relaunches hshell hbase status frame
    refine iff_of_false (fun hall => ?_) fun hc => hc.2 hbase
    have hdelivered := hall.1 _ List.mem_cons_self
    rw [Delivery.Delivered, hres] at hdelivered
    cases hdelivered
  -- the right call is resumed, and returns 0
  · obtain ⟨hres, hflag⟩ := sysHalt_resumes hbase status frame
    have hcall : k.oldFrame k.pidCounter = c.frame := hpid ▸ (h.calls c hmem).2
    have hdelivered : Delivery.Delivered ⟨c.frame, status.toNat, (sysHalt k status frame).2.outcome⟩ ↔
        status = 0 := by
      rw [Delivery.Delivered, hres, HaltResult.outcome, hcall, Option.some.injEq, Prod.mk.injEq, executeReturn]
      constructor
      · intro hzero
        exact UInt8.toNat_inj.1 (by have := hzero.2; simp at this ⊢; omega)
      · rintro rfl
        exact ⟨rfl, rfl⟩
    rw [AllDelivered, List.forall_mem_cons, hdelivered]
    exact ⟨fun hall => ⟨hall.1.1, hbase⟩, fun hc => ⟨⟨hc.1, hq.1⟩, hflag⟩⟩

/-- No exception is delivered. -/
private theorem exception_not_delivered (h : ExecutionsOk ⟨k, running, pending, ended⟩) {call : Frame}
    {message : List UInt8} {frame : Frame} :
    ¬AllDelivered ⟨(raiseException k message frame).1, running', pending',
      ⟨call, 256, (raiseException k message frame).2.outcome⟩ :: ended⟩ := by
  intro hall
  have hdelivered := hall.1 _ List.mem_cons_self
  unfold raiseException at hdelivered
  obtain ⟨eip, hshell⟩ := (raised_ok h message).shell
  generalize ({ puts k message with flagException := true } : Kernel) = k₁ at hdelivered hshell
  -- either no call is resumed, or it returns 0 for 256
  by_cases hbase : 0 < k₁.pidCounter.val ∧ k₁.pidCounter.val < 3
  · rw [Delivery.Delivered, (sysHalt_relaunches hshell hbase 0 frame).1] at hdelivered
    cases hdelivered
  · rw [Delivery.Delivered, (sysHalt_resumes hbase 0 frame).1, HaltResult.outcome, Option.some.injEq, Prod.mk.injEq,
      executeReturn] at hdelivered
    cases hdelivered.2

/-- The flag after the halt of a base shell. -/
private theorem sysHalt_flagException (h : ExecutionsOk ⟨k, running, pending, ended⟩) (status : UInt8) (frame : Frame) :
    (sysHalt k status frame).1.flagException =
      (decide (0 < k.pidCounter.val ∧ k.pidCounter.val < 3) && k.flagException) := by
  by_cases hbase : 0 < k.pidCounter.val ∧ k.pidCounter.val < 3
  · obtain ⟨eip, hshell⟩ := h.shell
    rw [(sysHalt_relaunches hshell hbase status frame).2.relaunch_flagException, decide_eq_true hbase, Bool.true_and]
  · rw [(sysHalt_resumes hbase status frame).2, decide_eq_false hbase, Bool.false_and]

private theorem exitStep_delivered_iff {s t : Executions} {e : ExitEvent} (h : ExecutionsOk s) (hq : AllDelivered s)
    (hown : OwnCall s e) (hstep : ExitStep s e t) : AllDelivered t ↔ StatusKept s e := by
  cases hstep with
  | trap | leave => exact iff_of_true ⟨hq.1, hq.2⟩ trivial
  | launched | notLaunched =>
    exact iff_of_true ⟨hq.1, (sysExecute_keepsCalls _ _ _).flagException.trans hq.2⟩ trivial
  | @halt k stack running pending ended c status frame outcome hmem hresumes =>
    obtain ⟨hpid, hintact⟩ := hown
    have hpid : k.pidCounter = c.program := hpid
    rw [hresumes.outcome_eq (by rwa [hpid]), halt_delivered_iff h hq hmem hpid, hpid]
    rfl
  | @exception k stack running pending ended c message frame outcome hmem hresumes =>
    obtain ⟨hpid, hintact⟩ := hown
    have hpid : k.pidCounter = c.program := hpid
    rw [hresumes.outcome_eq (by rwa [hpid])]
    exact iff_of_false (exception_not_delivered h) id
  | @baseHalt k stack running pending ended status frame =>
    have hflag : k.flagException = false := hq.2
    refine iff_of_true ⟨hq.1, ?_⟩ trivial
    dsimp only
    rw [sysHalt_flagException h, hflag, Bool.and_false]
  | @baseException k stack running pending ended message frame =>
    have hflag := sysHalt_flagException (raised_ok h message) 0 frame
    rw [raised_pidCounter] at hflag
    -- no call is resumed, and only a relaunch leaves the flag set
    have hend : AllDelivered ⟨(raiseException k message frame).1, running, pending, ended⟩ ↔
        (raiseException k message frame).1.flagException = false := and_iff_right hq.1
    rw [hend, raiseException, hflag]
    simp [StatusKept]
  | other hother =>
    exact iff_of_true ⟨hq.1, (otherStep_keepsCalls h.dirIsOpen hother).flagException.trans hq.2⟩ trivial

end Step

/-! ### Runs -/

/-- A tick that launches a shell has found one in the file system. -/
theorem shell_of_tick {k : Kernel} {frame execFrame : Frame} {eip : Int}
    (hlaunch : (pitHandler k frame execFrame).2 = .launched eip) :
    execOutcome k.fs (some (asBytes "shell")) = .launched eip := by
  have hend := pitHandler_ended k frame execFrame
  rw [hlaunch] at hend
  generalize (pitHandler k frame execFrame).1 = k₁ at hend
  cases hend with
  | launched hcount hres =>
    rw [sysExecute_result, (pitBoot_sameProcesses k frame hcount).fs] at hres
    split at hres
    · cases hres
    · exact hres

/-- The first shell runs, and no program. -/
def firstExecutions (b : Boot) (frame execFrame : Frame) : Executions :=
  ⟨(pitHandler (entry b) frame execFrame).1, .user, [], []⟩

private theorem firstShell_executionsOk {b : Boot} {frame execFrame : Frame} {eip : Int}
    (hlaunch : (pitHandler (entry b) frame execFrame).2 = .launched eip) :
    ExecutionsOk (firstExecutions b frame execFrame) ∧ AllDelivered (firstExecutions b frame execFrame) := by
  have hentry : ExecutionsOk ⟨entry b, .user, [], []⟩ :=
    ⟨fun _ hc => absurd hc List.not_mem_nil, ⟨eip, shell_of_tick hlaunch⟩, (entry_dir b).1⟩
  have hkeeps := pitHandler_keepsCalls (entry b) frame execFrame
  exact ⟨hentry.keep hkeeps, fun _ hd => absurd hd List.not_mem_nil, hkeeps.flagException.trans rfl⟩

/-- The third shell of the machine with one program has executed a shell. -/
def fourShells : Kernel := (sysExecute threeShells (some (asBytes "shell")) frame₀).1

/-- The third shell executes a shell. -/
def executeShell₃ : ExitEvent := .execute (some (asBytes "shell")) frame₀

/-- The first shell makes way for the ticks that launch the other two; the third executes a shell, which makes a call
and then another. -/
def fourShellsEvents : List ExitEvent :=
  [.trap, .other, .leave] ++ [.trap, .other, .leave] ++ [.trap, executeShell₃, .trap, .leave, .trap]

/-- The new shell is in its second call, and the call that launched it waits on the stack of process 2. -/
def fourShellsState : Executions := ⟨fourShells, .kernel (kernelStack 3), [⟨3, frame₀, kernelStack 2, true⟩], []⟩

/-- A tick that launches a shell. -/
private theorem bootTick_run (k : Kernel) :
    Run (Guarded (fun s e => OwnCall s e ∧ StatusKept s e) ExitStep) ⟨k, .user, [], []⟩ [.trap, .other, .leave]
      ⟨(pitHandler k frame₀ frame₀).1, .user, [], []⟩ :=
  .snoc (.snoc (.single ⟨⟨trivial, trivial⟩, .trap⟩) ⟨⟨trivial, trivial⟩, .other .tick⟩)
    ⟨⟨trivial, trivial⟩, .leave⟩

private theorem launched_step {k : Kernel} {command : Option (List UInt8)} {frame : Frame} {eip : Int} {p : Fin 6}
    (hres : (sysExecute k command frame).2 = .launched eip) (hpid : (sysExecute k command frame).1.pidCounter = p)
    (stack : Nat) :
    ExitStep ⟨k, .kernel stack, [], []⟩ (.execute command frame)
      ⟨(sysExecute k command frame).1, .user, [⟨p, frame, stack, true⟩], []⟩ := by
  subst hpid
  exact .launched hres

/-- The calls of the new shell are on its own stack. -/
private theorem fourShells_trap :
    ExitStep ⟨fourShells, .user, [⟨3, frame₀, kernelStack 2, true⟩], []⟩ .trap fourShellsState := by
  have hstack : fourShells.tss.esp0 = kernelStack 3 := by decide +kernel
  have hpending : trapOn fourShells.tss.esp0 [⟨3, frame₀, kernelStack 2, true⟩] =
      [⟨3, frame₀, kernelStack 2, true⟩] := by decide +kernel
  have htrap : ExitStep ⟨fourShells, .user, [⟨3, frame₀, kernelStack 2, true⟩], []⟩ .trap _ := .trap
  rwa [hpending, hstack] at htrap

private theorem fourShells_run :
    Run (Guarded (fun s e => OwnCall s e ∧ StatusKept s e) ExitStep) (firstExecutions shellBoot frame₀ frame₀)
      fourShellsEvents fourShellsState := by
  have hres : (sysExecute threeShells (some (asBytes "shell")) frame₀).2 = .launched 0x8048000 := by decide +kernel
  have hpid : (sysExecute threeShells (some (asBytes "shell")) frame₀).1.pidCounter = 3 := by decide +kernel
  have hstack : threeShells.tss.esp0 = kernelStack 2 := by decide +kernel
  have hexecute : ExitStep ⟨threeShells, .kernel (kernelStack 2), [], []⟩ executeShell₃
      ⟨fourShells, .user, [⟨3, frame₀, kernelStack 2, true⟩], []⟩ := launched_step hres hpid (kernelStack 2)
  have htrap : ExitStep ⟨threeShells, .user, [], []⟩ .trap ⟨threeShells, .kernel (kernelStack 2), [], []⟩ := by
    rw [← hstack]
    exact .trap
  have hshells := (bootTick_run firstShell).append (bootTick_run twoShells)
  exact hshells.append (.snoc (.snoc (.snoc (.snoc (.single ⟨⟨trivial, trivial⟩, htrap⟩)
    ⟨⟨trivial, trivial⟩, hexecute⟩) ⟨⟨trivial, trivial⟩, fourShells_trap⟩) ⟨⟨trivial, trivial⟩, .leave⟩)
    ⟨⟨trivial, trivial⟩, fourShells_trap⟩)

private theorem fourShells_halt {status : UInt8}
    (hres : (sysHalt fourShells status frame₀).2 = .resumed frame₀ status.toNat) :
    ExitStep fourShellsState (.halt 3 status frame₀)
      ⟨(sysHalt fourShells status frame₀).1, .kernel (kernelStack 2), [],
        [⟨frame₀, status.toNat, some (frame₀, 0)⟩]⟩ := by
  have hpid : (3 : Fin 6) = fourShells.pidCounter := by decide +kernel
  have hresumes : Resumes fourShells fourShellsState.pending (kernelStack 3) (sysHalt fourShells status frame₀).2
      (sysHalt fourShells status frame₀).2.outcome (.kernel (kernelStack 2)) :=
    .call hres List.mem_cons_self hpid rfl
  have hstep : ExitStep fourShellsState (.halt 3 status frame₀)
      ⟨(sysHalt fourShells status frame₀).1, .kernel (kernelStack 2), fourShellsState.pending.filter (·.program ≠ 3),
        [⟨frame₀, status.toNat, (sysHalt fourShells status frame₀).2.outcome⟩]⟩ := .halt List.mem_cons_self hresumes
  rwa [hres] at hstep

end BigChungOS
