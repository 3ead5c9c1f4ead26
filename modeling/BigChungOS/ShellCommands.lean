import BigChungOS.ExitStatus
import BigChungOS.KernelStacks
import BigChungOS.UserPrograms

/-!
# Programs that run programs (sys_execute and sys_halt)

`sys_execute` does not return to its caller before the program it has launched halts, and all the calls and interrupts
of that program come in between (`ShellReturns`).  They leave the descriptors, the arguments and the call of the
caller alone (`RunKept`).  The frame of that call is on the stack of `tss.esp0` at the time of the `sys_execute`, and no
trap may come to that stack before the halt: it is demanded of every call of the program, and of its end
(`childService`).  For this no interrupt may switch terminals while the program runs; between the commands any may.

So to a program that runs with the base shells up and the terminals in order, `execute` is a call like the others: it
returns 0 after the program has printed what it prints, whatever status it halts with, or -1 (`shell_refines`).  Only
the position in the directory stays where the program has left it.

`code` gives the program of a command as the calls it makes, none of which is a `sys_execute` of its own.
-/

namespace BigChungOS

open Memory Transition Programs Programs.Program

/-! ### What a run leaves alone -/

/-- What a running program, and interrupts, leave alone: which processes there are, the calls that launched them, and
the descriptors and arguments of those that wait. -/
structure RunKept (k k' : Kernel) : Prop extends KeepsCalls k k' where
  pidCounter : k'.pidCounter = k.pidCounter
  prevPid : k'.prevPid = k.prevPid
  inUse : k'.inUse = k.inUse
  waiting : ∀ p ≠ k.pidCounter, k.inUse p = true →
    (k'.allPcbs p).fdt = (k.allPcbs p).fdt ∧ (k'.allPcbs p).args = (k.allPcbs p).args

section Kept

variable {k k' k'' : Kernel}

theorem RunKept.refl (k : Kernel) : RunKept k k where
  toKeepsCalls := keepsCalls_of_pcbs rfl rfl rfl
  pidCounter := rfl
  prevPid := rfl
  inUse := rfl
  waiting _ _ _ := ⟨rfl, rfl⟩

theorem RunKept.trans (h : RunKept k k') (h' : RunKept k' k'') : RunKept k k'' where
  toKeepsCalls := h.toKeepsCalls.trans h'.toKeepsCalls
  pidCounter := h'.pidCounter.trans h.pidCounter
  prevPid := h'.prevPid.trans h.prevPid
  inUse := h'.inUse.trans h.inUse
  waiting p hp huse := by
    obtain ⟨hfdt, hargs⟩ := h.waiting p hp huse
    obtain ⟨hfdt', hargs'⟩ := h'.waiting p (h.pidCounter ▸ hp) (h.inUse ▸ huse)
    exact ⟨hfdt'.trans hfdt, hargs'.trans hargs⟩

private theorem CallsOnly.runKept (h : CallsOnly k k') (hcalls : KeepsCalls k k') : RunKept k k' where
  toKeepsCalls := hcalls
  pidCounter := h.pidCounter
  prevPid := h.prevPid
  inUse := h.inUse
  waiting p hp _ := by
    rw [h.pcb p hp]
    exact ⟨rfl, rfl⟩

private theorem Interrupted.runKept (h : Interrupted k k') (hcalls : KeepsCalls k k') : RunKept k k' where
  toKeepsCalls := hcalls
  pidCounter := h.pidCounter
  prevPid := h.prevPid
  inUse := h.inUse
  waiting p _ huse := ⟨h.fdt p, (h.args p huse).2⟩

private theorem Interrupt.runKept (h : Interrupt k k') : RunKept k k' := by
  refine h.interrupted.runKept ?_
  cases h with
  | key scanCode past => exact keyboardHandler_keepsCalls k scanCode past
  | tick frame execFrame hlate => exact pitHandler_keepsCalls k frame execFrame
  | clock => exact keepsCalls_of_pcbs rfl rfl rfl

private theorem interrupts_runKept (h : Relation.ReflTransGen Interrupt k k') : RunKept k k' := by
  induction h with
  | refl => exact .refl k
  | tail _ hlast ih => exact ih.trans hlast.runKept

private theorem sysGetargs_runKept {nbytes : Int} {g : Getargs} (h : sysGetargs k nbytes = some (k', g)) :
    RunKept k k' := by
  have hcalls := sysGetargs_keepsCalls h
  unfold sysGetargs at h
  dsimp only at h
  split_ifs at h
  · cases h
    exact .refl k
  · cases h
    have hcleared : CallsOnly k (clearArgs k) :=
      { fs := ⟨k.fs.currDir, rfl⟩, pidCounter := rfl, prevPid := rfl
        inUse := funext fun p => by by_cases hp : p = k.pidCounter <;> simp [clearArgs, Kernel.inUse, hp]
        pcb := fun p hp => by simp [clearArgs, hp] }
    exact hcleared.runKept hcalls

private theorem sysVidmap_runKept {screenStart : Nat} {r : Int} (h : sysVidmap k screenStart = some (k', r)) :
    RunKept k k' := by
  have hcalls := sysVidmap_keepsCalls h
  unfold sysVidmap at h
  split_ifs at h <;> cases h <;> exact { RunKept.refl k with toKeepsCalls := hcalls }

/-- A call of a program. -/
private theorem Returns.runKept {I : Kernel → Kernel → Prop} (hI : ∀ k k', I k k' → Interrupt k k') {s s' : UserSession}
    {c : Syscall} {r : CallResult} (hslots : SlotsOk s.kernel) (h : Returns I s c r s') :
    RunKept s.kernel s'.kernel := by
  have hinterrupts : ∀ {k k₁}, Relation.ReflTransGen I k k₁ → SlotsOk k → RunKept k k₁ ∧ SlotsOk k₁ := by
    intro k k₁ hint hk
    have hall := Relation.ReflTransGen.mono hI k k₁ hint
    exact ⟨interrupts_runKept hall, (interrupts_interrupted hall).slotsOk hk⟩
  cases h with
  | open_ hint hname hcall =>
    obtain ⟨hkept, hslots₁⟩ := hinterrupts hint hslots
    exact hkept.trans ((sysOpen_callsOnly hslots₁ hcall).runKept (sysOpen_keepsCalls hslots₁.dirIsOpen hcall))
  | read hint hcall =>
    obtain ⟨hkept, hslots₁⟩ := hinterrupts hint hslots
    obtain ⟨-, honly, -⟩ := sysRead_position hslots₁ hcall
    exact hkept.trans (honly.runKept (sysRead_keepsCalls hcall))
  | write hint hbuf hcall =>
    exact (hinterrupts hint hslots).1.trans ((sysWrite_pcbs hcall).1.runKept (sysWrite_keepsCalls hcall))
  | @close k k₁ printed fd hint =>
    have hfiles := sysClose_filesOnly k₁ fd
    exact (hinterrupts hint hslots).1.trans (hfiles.callsOnly.runKept hfiles.keepsCalls)
  | @getargs k k₁ k' printed nbytes g hint hcall =>
    exact (hinterrupts hint hslots).1.trans (sysGetargs_runKept hcall)
  | @vidmap k k₁ k' printed screenStart r hint hcall =>
    exact (hinterrupts hint hslots).1.trans (sysVidmap_runKept hcall)
  | number hint _ => exact (hinterrupts hint hslots).1

end Kept

/-! ### The end of a program -/

/-- `sys_halt` closes every descriptor. -/
def Os.closeAll {files : List File} (os : Os files) : Os files :=
  ([0, 1, 2, 3, 4, 5, 6, 7] : List Int).foldl (fun os fd => (os.close fd).1) os

section End

variable {files : List File} {inodes blocks : Nat} {k k₁ k₂ : Kernel} {printed text : List UInt8} {os os₁ : Os files}
  {frame : Frame}

theorem Sees.closeAll (h : Sees files inodes blocks ⟨k, printed⟩ os) :
    Sees files inodes blocks ⟨BigChungOS.closeAll k, printed⟩ os.closeAll := by
  unfold BigChungOS.closeAll Os.closeAll
  generalize ([0, 1, 2, 3, 4, 5, 6, 7] : List Int) = fds
  induction fds generalizing k os with
  | nil => exact h
  | cons fd fds ih =>
    have hclosed : Sees files inodes blocks ⟨(sysClose k fd).1, printed⟩ (os.close fd).1 := h.close.2
    exact ih hclosed

/-- The base shells are up. -/
def ShellsInUse (k : Kernel) : Prop := ∀ p : Fin 6, p.val < 3 → k.inUse p = true

private theorem Launched.inUse_of_ne (h : Launched k frame k₁) {p : Fin 6} (hp : p ≠ k₁.pidCounter) :
    k₁.inUse p = k.inUse p := by
  rw [Kernel.inUse, h.pcb p hp, Kernel.inUse]

/-- With the base shells up, a new program is none of them. -/
private theorem Launched.not_base (h : Launched k frame k₁) (hbase : ShellsInUse k) : ¬k₁.pidCounter.val < 3 := by
  intro hlt
  exact ne_of_inUse (hbase _ hlt) h.free rfl

private theorem Launched.not_relaunched (h : Launched k frame k₁) (hbase : ShellsInUse k) (hkept : RunKept k₁ k₂) :
    ¬(0 < k₂.pidCounter.val ∧ k₂.pidCounter.val < 3) := by
  have hnew := h.not_base hbase
  rw [hkept.pidCounter]
  omega

/-- Its halt resumes the call that has launched it, which returns 0. -/
private theorem Launched.halt_outcome (h : Launched k frame k₁) (hbase : ShellsInUse k) (hkept : RunKept k₁ k₂)
    (status : UInt8) (haltFrame : Frame) : (sysHalt k₂ status haltFrame).2.outcome = some (frame, 0) := by
  have hother := h.not_relaunched hbase hkept
  have hcall := (hkept.calls k₁.pidCounter h.inUse).2
  obtain ⟨hebp, hesp⟩ := h.oldFrame
  rw [(sysHalt_resumes hother status haltFrame).1, hkept.pidCounter, hcall, Kernel.oldFrame, hebp, hesp]
  rfl

/-- The processes after the halt of a new program are those before its launch. -/
private theorem Launched.halt_inUse (h : Launched k frame k₁) (hbase : ShellsInUse k) (hkept : RunKept k₁ k₂)
    (status : UInt8) (haltFrame : Frame) : (sysHalt k₂ status haltFrame).1.inUse = k.inUse := by
  have hother := h.not_relaunched hbase hkept
  funext p
  rw [sysHalt_of_other hother, Kernel.inUse, (haltReturn_spec _ status).pcbs, ← Kernel.inUse, (released_spec k₂).inUse,
    hkept.pidCounter]
  by_cases hp : p = k₁.pidCounter
  · subst hp
    rw [Function.update_self]
    exact (getFreePcb_eq_some h.free).1.symm
  · rw [Function.update_of_ne hp, hkept.inUse, h.inUse_of_ne hp]

/-- The caller goes on where it was, behind what the program has printed. -/
private theorem Launched.halt_sees (h : Launched k frame k₁) (hbase : ShellsInUse k)
    (hsees : Sees files inodes blocks ⟨k, printed⟩ os) (hkept : RunKept k₁ k₂)
    (hchild : Sees files inodes blocks ⟨k₂, text⟩ os₁) (status : UInt8) (haltFrame : Frame) :
    Sees files inodes blocks ⟨(sysHalt k₂ status haltFrame).1, printed ++ text⟩
      ((os.print os₁.out).moveTo os₁.closeAll.cursor) := by
  have hother := h.not_relaunched hbase hkept
  have hne : k.pidCounter ≠ k₁.pidCounter := ne_of_inUse hsees.inUse h.free
  have hinUse := congrFun (h.halt_inUse hbase hkept status haltFrame) k.pidCounter
  have hok : FilesOk files inodes blocks (sysHalt k₂ status haltFrame).1 := callStep_filesOk hchild.filesOk .halt
  have hfs : ∃ n, (sysHalt k₂ status haltFrame).1.fs = { k.fs with currDir := n } := by
    obtain ⟨n, hn⟩ := sysHalt_fs k₂ status haltFrame
    obtain ⟨m, hm⟩ := hkept.fs
    exact ⟨n, by rw [hn, hm, h.fs]⟩
  obtain ⟨hfdt, hargs⟩ := hkept.waiting k.pidCounter hne (by rw [h.inUse_of_ne hne]; exact hsees.inUse)
  have hreturned := haltReturn_spec (released k₂) status
  have hreleased := released_spec k₂
  rw [sysHalt_of_other hother] at hinUse hok hfs ⊢
  have hpid : (haltReturn (released k₂) status).1.pidCounter = k.pidCounter := by
    rw [hreturned.pidCounter, hreleased.prevPid, hkept.prevPid, h.prevPid]
  have hpcb : (haltReturn (released k₂) status).1.allPcbs k.pidCounter = k₂.allPcbs k.pidCounter := by
    rw [hreturned.pcbs, hreleased.pcb _ (by rwa [hkept.pidCounter])]
  rw [h.pcb _ hne] at hfdt hargs
  have hcursor := hchild.closeAll.cursor
  refine ⟨hok, ?_, fun d hd => ?_, ?_, fun i hi => ?_, ?_⟩
  · dsimp only
    rw [hpid, hinUse]
    exact hsees.inUse
  · refine (hsees.views d hd).keep hok.slots hfs ?_
    rw [Kernel.fdt, hpid, hpcb, hfdt, Kernel.fdt]
  · dsimp only
    rw [hreturned.fs]
    exact hcursor
  · dsimp only
    rw [hpid, hpcb, hargs]
    exact hsees.args i hi
  · rw [Os.moveTo_out, Os.print_out, ← hsees.out, ← hchild.out]

/-- The terminals are in order again. -/
private theorem Launched.halt_stacksOk (h : Launched k frame k₁) (hbase : ShellsInUse k) (hstacks : StacksOk k)
    (hcaller : k.inUse k.pidCounter = true) (hkept : RunKept k₁ k₂) (hstack : StackKept k₁ k₂) (status : UInt8)
    (haltFrame : Frame) : StacksOk (sysHalt k₂ status haltFrame).1 := by
  have hinUse := h.halt_inUse hbase hkept status haltFrame
  rw [sysHalt_of_other (h.not_relaunched hbase hkept)] at hinUse ⊢
  have hreleased := released_spec k₂
  have hstack' : StackKept k₁ (released k₂) :=
    hstack.trans ⟨by rw [hreleased.tss], hreleased.currTerminal, fun _ => by rw [hreleased.terminals],
      fun _ => by rw [hreleased.terminals]⟩
  have hprev : (released k₂).prevPid = k.pidCounter := by rw [hreleased.prevPid, hkept.prevPid, h.prevPid]
  exact hstacks.halted h hstack' (haltReturn_spec _ status) hinUse (hprev ▸ hcaller)

/-- A `sys_execute` that fails changes nothing the caller sees. -/
theorem Failed.sees (h : Failed k k₁) (hsees : Sees files inodes blocks ⟨k, printed⟩ os)
    (hok : FilesOk files inodes blocks k₁) : Sees files inodes blocks ⟨k₁, printed⟩ os := by
  have hpcb := h.pcb k.pidCounter hsees.inUse
  refine ⟨hok, ?_, fun d hd => ?_, ?_, ?_, hsees.out⟩
  · dsimp only
    rw [h.pidCounter, h.inUse]
    exact hsees.inUse
  · refine (hsees.views d hd).keep hok.slots ⟨k.fs.currDir, h.fs⟩ ?_
    rw [Kernel.fdt, h.pidCounter, hpcb, Kernel.fdt]
  · dsimp only
    rw [h.fs]
    exact hsees.cursor
  · dsimp only
    rw [h.pidCounter, hpcb]
    exact hsees.args

end End

/-! ### The calls of a shell -/

inductive ShellCall
  | sys (c : Syscall)
  | execute (command : List UInt8)

/-- The calls of a program whose caller waits on `stack`: between quiet interrupts, and no trap may come to that
stack. -/
def childService (stack : Nat) : Service UserSession Syscall CallResult :=
  (callService QuietInterrupt).demanding fun s =>
    ∀ k, Relation.ReflTransGen QuietInterrupt s.kernel k → k.tss.esp0 ≠ stack

section Service

variable {α : Type} (code : List UInt8 → Program Syscall CallResult α)

/-- A call, or a `sys_execute`: it fails, or it launches the program of the command, which makes its calls and halts
with some status, and the halt resumes the call with a value. -/
inductive ShellReturns : UserSession → ShellCall → CallResult → UserSession → Prop
  | sys {s s' : UserSession} {c : Syscall} {r : CallResult} (h : Returns Interrupt s c r s') :
      ShellReturns s (.sys c) r s'
  | fails {k k₁ : Kernel} {printed command : List UInt8} {frame : Frame} (hint : Relation.ReflTransGen Interrupt k k₁)
      (h : (sysExecute k₁ (some command) frame).2 = .error) :
      ShellReturns ⟨k, printed⟩ (.execute command) (-1, []) ⟨(sysExecute k₁ (some command) frame).1, printed⟩
  | runs {k k₁ k₂ k₃ : Kernel} {printed command text : List UInt8} {frame haltFrame : Frame} {eip r : Int}
      {calls : List (Syscall × CallResult)} {a : α} {status : UInt8} (hint : Relation.ReflTransGen Interrupt k k₁)
      (hlaunch : (sysExecute k₁ (some command) frame).2 = .launched eip)
      (hrun : (code command).Runs (childService k₁.tss.esp0) ⟨(sysExecute k₁ (some command) frame).1, []⟩ calls a
        ⟨k₂, text⟩)
      (hint' : Relation.ReflTransGen QuietInterrupt k₂ k₃)
      (hhalt : (sysHalt k₃ status haltFrame).2.outcome = some (frame, r)) :
      ShellReturns ⟨k, printed⟩ (.execute command) (r, []) ⟨(sysHalt k₃ status haltFrame).1, printed ++ text⟩

/-- The calls that return.  A `sys_execute` does if the calls of its program do and the halt resumes it, and if no trap
of the program comes to the stack it waits on. -/
def ShellTakes (s : UserSession) : ShellCall → Prop
  | .sys c => kernelService.takes s c
  | .execute command =>
    ∀ k frame, Relation.ReflTransGen Interrupt s.kernel k →
      match (sysExecute k (some command) frame).2 with
      | .error => True
      | .faulted => False
      | .launched _ =>
        (code command).Ensures (childService k.tss.esp0) (fun _ t => ∀ k' status haltFrame,
          Relation.ReflTransGen QuietInterrupt t.kernel k' →
            k'.tss.esp0 ≠ k.tss.esp0 ∧ ∃ r, (sysHalt k' status haltFrame).2.outcome = some (frame, r))
          ⟨(sysExecute k (some command) frame).1, []⟩

/-- The calls of a shell as the kernel does them, when `code` are the programs of the commands. -/
def shellKernel : Service UserSession ShellCall CallResult where
  takes := ShellTakes code
  returns := ShellReturns code

/-- What a shell sees of a command: the text of its program, and the position in the directory behind it. -/
def Os.Executes {files : List File} (fs : FileSystem) (os : Os files) (command : List UInt8) (r : CallResult)
    (os' : Os files) : Prop :=
  match execOutcome fs (some command) with
  | .launched _ =>
    r = (0, []) ∧ ∃ os₀ os₁ calls a, os₀.Fresh (firstWord (afterWord command)) ∧ os₀.cursor = os.cursor ∧
      (code command).Runs (osService files) os₀ calls a os₁ ∧ os' = (os.print os₁.out).moveTo os₁.closeAll.cursor
  | _ => r = (-1, []) ∧ os' = os

/-- The calls of a shell as it sees them; `fs` decides which commands are launched. -/
def shellOs (files : List File) (fs : FileSystem) : Service (Os files) ShellCall CallResult where
  takes os
    | .sys c => (osService files).takes os c
    | .execute command =>
      match execOutcome fs (some command) with
      | .error => True
      | .faulted => False
      | .launched _ => ∀ os₀ : Os files, os₀.Fresh (firstWord (afterWord command)) →
          (code command).Ensures (osService files) (fun _ _ => True) os₀
  returns os
    | .sys c => (osService files).returns os c
    | .execute command => os.Executes code fs command

/-- The shell sees `os`; the base shells are up, there is a free PCB, and the terminals are in order. -/
structure ShellSees (files : List File) (inodes blocks : Nat) (fs : FileSystem) (s : UserSession) (os : Os files) :
    Prop where
  sees : Sees files inodes blocks s os
  base : ShellsInUse s.kernel
  room : ∃ p, s.kernel.inUse p = false
  fs : ∃ n, s.kernel.fs = { fs with currDir := n }
  stacksOk : StacksOk s.kernel

variable {code} {files : List File} {inodes blocks : Nat} {fs : FileSystem} {k k' : Kernel} {printed : List UInt8}
  {os os' : Os files}

private theorem shellOs_execute {command : List UInt8} :
    (shellOs code files fs).takes os (.execute command) ↔
      match execOutcome fs (some command) with
      | .error => True
      | .faulted => False
      | .launched _ => ∀ os₀ : Os files, os₀.Fresh (firstWord (afterWord command)) →
          (code command).Ensures (osService files) (fun _ _ => True) os₀ := Iff.rfl

theorem shellOs_executes {command : List UInt8} {r : CallResult} :
    (shellOs code files fs).returns os (.execute command) r os' ↔ os.Executes code fs command r os' := Iff.rfl

/-- A command that is launched, by what its program ensures. -/
private theorem ensures_execute {command : List UInt8} {eip : Int} {Q : CallResult → Os files → Prop}
    (hlaunch : execOutcome fs (some command) = .launched eip)
    (h : ∀ os₀ : Os files, os₀.Fresh (firstWord (afterWord command)) → (code command).Ensures (osService files)
      (fun _ os₁ => Q (0, []) ((os.print os₁.out).moveTo os₁.closeAll.cursor)) os₀) :
    (send (.execute command)).Ensures (shellOs code files fs) Q os := by
  rw [ensures_send, shellOs_execute, hlaunch]
  refine ⟨fun os₀ h₀ => (h os₀ h₀).mono fun _ _ _ => trivial, ?_⟩
  intro r os' hexecutes
  rw [shellOs_executes, Os.Executes, hlaunch] at hexecutes
  obtain ⟨rfl, os₀, os₁, calls, a, h₀, -, hrun, rfl⟩ := hexecutes
  exact (h os₀ h₀).runs hrun

/-- A step that leaves the processes in use as they are. -/
theorem ShellSees.next {printed' : List UInt8} (h : ShellSees files inodes blocks fs ⟨k, printed⟩ os)
    (hsees : Sees files inodes blocks ⟨k', printed'⟩ os') (hinUse : k'.inUse = k.inUse)
    (hfs : ∃ n, k'.fs = { k.fs with currDir := n }) (hstacks : StacksOk k') :
    ShellSees files inodes blocks fs ⟨k', printed'⟩ os' where
  sees := hsees
  base p hp := (congrFun hinUse p).trans (h.base p hp)
  room := by
    obtain ⟨p, hp⟩ := h.room
    exact ⟨p, (congrFun hinUse p).trans hp⟩
  fs := by
    obtain ⟨n, hn⟩ := hfs
    obtain ⟨m, hm⟩ := h.fs
    exact ⟨n, by rw [hn, hm]⟩
  stacksOk := hstacks

theorem ShellSees.interrupted (h : ShellSees files inodes blocks fs ⟨k, printed⟩ os)
    (hint : Relation.ReflTransGen Interrupt k k') : ShellSees files inodes blocks fs ⟨k', printed⟩ os := by
  have hkept := interrupts_interrupted hint
  exact h.next (h.sees.interrupted hkept) hkept.inUse ⟨k.fs.currDir, hkept.fs⟩ (interrupts_stacksOk hint h.stacksOk)

/-- The files decide what becomes of a command. -/
theorem ShellSees.outcome (h : ShellSees files inodes blocks fs ⟨k, printed⟩ os) (command : List UInt8)
    (frame : Frame) :
    (sysExecute k (some command) frame).2 = execOutcome fs (some command) := by
  obtain ⟨n, hn⟩ := h.fs
  obtain ⟨p, hp⟩ := h.room
  have hfree : getFreePcb k ≠ none := by
    rw [Ne, getFreePcb_eq_none]
    intro hall
    rw [hall p] at hp
    cases hp
  have hfs : k.fs = { fs with currDir := n } := hn
  rw [sysExecute_result, if_neg hfree, hfs, execOutcome_currDir]

/-- A new program sees a fresh system. -/
theorem ShellSees.launched {command : List UInt8} {frame : Frame} {eip : Int}
    (h : ShellSees files inodes blocks fs ⟨k, printed⟩ os)
    (hlaunch : (sysExecute k (some command) frame).2 = .launched eip) :
    ∃ os₀ : Os files, os₀.Fresh (firstWord (afterWord command)) ∧ os₀.cursor = os.cursor ∧
      Sees files inodes blocks ⟨(sysExecute k (some command) frame).1, []⟩ os₀ := by
  have hcursor : k.fs.currDir = os.cursor.val := h.sees.cursor
  have hlt := os.cursor.isLt
  have hle : k.fs.currDir ≤ files.length := by omega
  obtain ⟨os₀, hfresh, hsees⟩ := launched_sees h.sees.filesOk hle hlaunch
  have hcursor₀ : (sysExecute k (some command) frame).1.fs.currDir = os₀.cursor.val := hsees.cursor
  rw [(sysExecute_launched hlaunch).fs] at hcursor₀
  exact ⟨os₀, hfresh, Fin.ext (hcursor₀.symm.trans hcursor), hsees⟩

private theorem quiet_interrupt (k k' : Kernel) (h : QuietInterrupt k k') : Interrupt k k' := h.1

/-- The calls of a program that has the stack on top of its terminal leave it there, and so none of its traps comes to
another one. -/
private theorem child_refines (files : List File) (inodes blocks : Nat) {stack : Nat} (htop : TopStack k)
    (hne : k.tss.esp0 ≠ stack) :
    Refines (childService stack) (osService files) fun s os =>
      Sees files inodes blocks s os ∧ RunKept k s.kernel ∧ StackKept k s.kernel := by
  refine Refines.demanding (Refines.keeps (callService_refines quiet_interrupt files inodes blocks)
    (P := fun s => RunKept k s.kernel ∧ StackKept k s.kernel) ?_) ?_
  · rintro s os c r s' hsees ⟨hkept, hstack⟩ hreturns
    obtain ⟨k₁, hint, hcall⟩ := hreturns.stackKept
    exact ⟨hkept.trans (hreturns.runKept quiet_interrupt hsees.filesOk.slots),
      (hstack.trans (quietInterrupts_stackKept hint (hstack.topStack htop))).trans hcall⟩
  · rintro s os ⟨-, -, hstack⟩ k₁ hint
    rw [(quietInterrupts_stackKept hint (hstack.topStack htop)).esp0, hstack.esp0]
    exact hne

/-- A program that is launched, from its first call to the end of its halt. -/
theorem ShellSees.runs {k₂ k₃ : Kernel} {command text : List UInt8} {frame haltFrame : Frame} {eip r : Int}
    {calls : List (Syscall × CallResult)} {a : α} {status : UInt8}
    (h : ShellSees files inodes blocks fs ⟨k, printed⟩ os)
    (hensures : ∀ os₀ : Os files, os₀.Fresh (firstWord (afterWord command)) →
      (code command).Ensures (osService files) (fun _ _ => True) os₀)
    (hlaunch : (sysExecute k (some command) frame).2 = .launched eip)
    (hrun : (code command).Runs (childService k.tss.esp0) ⟨(sysExecute k (some command) frame).1, []⟩ calls a
      ⟨k₂, text⟩)
    (hint : Relation.ReflTransGen QuietInterrupt k₂ k₃)
    (hhalt : (sysHalt k₃ status haltFrame).2.outcome = some (frame, r)) :
    r = 0 ∧ ∃ os₀ os₁, os₀.Fresh (firstWord (afterWord command)) ∧ os₀.cursor = os.cursor ∧
      (code command).Runs (osService files) os₀ calls a os₁ ∧
      ShellSees files inodes blocks fs ⟨(sysHalt k₃ status haltFrame).1, printed ++ text⟩
        ((os.print os₁.out).moveTo os₁.closeAll.cursor) := by
  have hlaunched := sysExecute_launched hlaunch
  have htop := hlaunched.topStack h.stacksOk
  obtain ⟨os₀, hfresh, hcursor, hsees⟩ := h.launched hlaunch
  obtain ⟨os₁, hruns, hchild, hkept, hstack⟩ :=
    (child_refines files inodes blocks htop (h.stacksOk.launched_ne hlaunched)).runs (hensures os₀ hfresh)
      ⟨hsees, .refl _, .refl _⟩ hrun
  have hall := Relation.ReflTransGen.mono quiet_interrupt k₂ k₃ hint
  have hkept₃ := hkept.trans (interrupts_runKept hall)
  have hstack₃ := hstack.trans (quietInterrupts_stackKept hint (hstack.topStack htop))
  have hchild₃ := hchild.interrupted (interrupts_interrupted hall)
  have hresumed := hhalt.symm.trans (hlaunched.halt_outcome h.base hkept₃ status haltFrame)
  have hinUse := hlaunched.halt_inUse h.base hkept₃ status haltFrame
  refine ⟨(Prod.mk.inj (Option.some.inj hresumed)).2, os₀, os₁, hfresh, hcursor, hruns, h.next
    (hlaunched.halt_sees h.base h.sees hkept₃ hchild₃ status haltFrame) hinUse ?_
    (hlaunched.halt_stacksOk h.base h.stacksOk h.sees.inUse hkept₃ hstack₃ status haltFrame)⟩
  obtain ⟨n, hn⟩ := sysHalt_fs k₃ status haltFrame
  obtain ⟨m, hm⟩ := hkept₃.fs
  exact ⟨n, by rw [hn, hm, hlaunched.fs]⟩

/-- The kernel refines what a shell sees. -/
theorem shell_refines (code : List UInt8 → Program Syscall CallResult α) (files : List File) (inodes blocks : Nat)
    (fs : FileSystem) :
    Refines (shellKernel code) (shellOs code files fs) (ShellSees files inodes blocks fs) where
  takes := by
    rintro ⟨k, printed⟩ os c h htakes
    cases c with
    | sys c => exact (kernel_refines files inodes blocks).takes _ os c h.sees htakes
    | execute command =>
      intro k₁ frame hint
      have h₁ := h.interrupted hint
      rw [shellOs_execute, ← h₁.outcome command frame] at htakes
      cases hres : (sysExecute k₁ (some command) frame).2 with
      | error => trivial
      | faulted =>
        rw [hres] at htakes
        exact htakes
      | launched eip =>
        rw [hres] at htakes
        obtain ⟨os₀, hfresh, -, hsees⟩ := h₁.launched hres
        have hlaunch := sysExecute_launched hres
        have htop := hlaunch.topStack h₁.stacksOk
        have hne := h₁.stacksOk.launched_ne hlaunch
        refine ((child_refines files inodes blocks htop hne).ensures (htakes os₀ hfresh)
          ⟨hsees, .refl _, .refl _⟩).mono ?_
        rintro a t ⟨os₁, ⟨-, hkept, hstack⟩, -⟩ k₃ status haltFrame hint'
        have hkept₃ := hkept.trans (interrupts_runKept (Relation.ReflTransGen.mono quiet_interrupt _ _ hint'))
        have hstack₃ := hstack.trans (quietInterrupts_stackKept hint' (hstack.topStack htop))
        exact ⟨by rwa [hstack₃.esp0], 0, hlaunch.halt_outcome h₁.base hkept₃ status haltFrame⟩
  returns := by
    intro s os c r s' h htakes hreturns
    cases hreturns with
    | @sys s s' c r hreturns =>
      obtain ⟨os', hos', hsees⟩ := (kernel_refines files inodes blocks).returns s os c r s' h.sees htakes hreturns
      have hkept := hreturns.runKept (fun _ _ hint => hint) h.sees.filesOk.slots
      obtain ⟨k₁, hint, hcall⟩ := hreturns.stackKept
      have hinUse := hkept.inUse.trans (interrupts_interrupted hint).inUse.symm
      exact ⟨os', hos', h.next hsees hkept.inUse hkept.fs
        (hcall.stacksOk hinUse (interrupts_stacksOk hint h.stacksOk))⟩
    | @fails k k₁ printed command frame hint hres =>
      have h₁ := h.interrupted hint
      have hfailed := sysExecute_failed hres
      have hok : FilesOk files inodes blocks (sysExecute k₁ (some command) frame).1 :=
        callStep_filesOk h₁.sees.filesOk .execute
      have hstack : StackKept k₁ (sysExecute k₁ (some command) frame).1 :=
        ⟨by rw [hfailed.tss], hfailed.currTerminal, fun _ => by rw [hfailed.terminals],
          fun _ => by rw [hfailed.terminals]⟩
      refine ⟨os, ?_, h₁.next (hfailed.sees h₁.sees hok) (funext hfailed.inUse) ⟨k₁.fs.currDir, hfailed.fs⟩
        (hstack.stacksOk (funext hfailed.inUse) h₁.stacksOk)⟩
      rw [shellOs_executes, Os.Executes, ← h₁.outcome command frame, hres]
      exact ⟨rfl, rfl⟩
    | @runs k k₁ k₂ k₃ printed command text frame haltFrame eip r calls a status hint hres hrun hint' hhalt =>
      have h₁ := h.interrupted hint
      have houtcome := h₁.outcome command frame
      rw [shellOs_execute, ← houtcome, hres] at htakes
      obtain ⟨rfl, os₀, os₁, hfresh, hcursor, hruns, hsees⟩ := h₁.runs htakes hres hrun hint' hhalt
      refine ⟨(os.print os₁.out).moveTo os₁.closeAll.cursor, ?_, hsees⟩
      rw [shellOs_executes, Os.Executes, ← houtcome, hres]
      exact ⟨rfl, os₀, os₁, calls, a, hfresh, hcursor, hruns, rfl⟩

end Service

/-! ### The shells -/

section Start

variable {files : List File} {inodes blocks : Nat} {args : List UInt8} {k : Kernel} {frame execFrame : Frame}
  {eip : Int}

/-- A tick that launches a shell is the `sys_execute` of that shell. -/
private theorem tick_launches (hlaunch : (pitHandler k frame execFrame).2 = .launched eip) :
    ∃ k₁, SameProcesses k k₁ ∧ (sysExecute k₁ (some (asBytes "shell")) execFrame).2 = .launched eip ∧
      (pitHandler k frame execFrame).1 = (sysExecute k₁ (some (asBytes "shell")) execFrame).1 := by
  have hend := pitHandler_ended k frame execFrame
  rw [hlaunch] at hend
  generalize (pitHandler k frame execFrame).1 = k' at hend ⊢
  cases hend with
  | launched h hres => exact ⟨_, pitBoot_sameProcesses k frame h, hres, rfl⟩

/-- So the shells on the other two terminals start as a program does. -/
private theorem ProgramStarted.of_tick {b : Boot} {frame' execFrame' : Frame} {eip' : Int} {calls : List Call}
    (hlayout : Layout b.image files inodes blocks)
    (hshell : (pitHandler (entry b) frame' execFrame').2 = .launched eip')
    (hcalls : Run CallStep (pitHandler (entry b) frame' execFrame').1 calls k)
    (hlaunch : (pitHandler k frame execFrame).2 = .launched eip) :
    ProgramStarted files inodes blocks [] (pitHandler k frame execFrame).1 := by
  obtain ⟨k₁, hsame, hres, heq⟩ := tick_launches hlaunch
  have hargs : firstWord (afterWord (asBytes "shell")) = [] := by decide
  have hstarted : ProgramStarted files inodes blocks (firstWord (afterWord (asBytes "shell")))
      (sysExecute k₁ (some (asBytes "shell")) execFrame).1 :=
    .launch hlayout hshell (hcalls.snoc (.interrupt hsame)) hres
  rwa [hargs, ← heq] at hstarted

/-- The states in which a shell starts that has been launched with the base shells up and the terminals in order: the
last of the base shells, or one that another shell runs. -/
structure ShellStarted (files : List File) (inodes blocks : Nat) (args : List UInt8) (k : Kernel) : Prop where
  started : ProgramStarted files inodes blocks args k
  base : ShellsInUse k
  room : ∃ p, k.inUse p = false
  stacksOk : StacksOk k

theorem ShellStarted.shellSees (h : ShellStarted files inodes blocks args k) :
    ∃ os : Os files, os.Fresh args ∧ ShellSees files inodes blocks k.fs ⟨k, []⟩ os := by
  obtain ⟨os, hfresh, hsees⟩ := h.started.sees
  exact ⟨os, hfresh, hsees, h.base, h.room, ⟨_, rfl⟩, h.stacksOk⟩

/-- Whatever a program ensures over the system that a shell sees, it ensures when the shell runs it: between its calls
there are interrupts, and its commands are run by the kernel. -/
theorem shells_refine {α β : Type} {code : List UInt8 → Program Syscall CallResult α}
    {p : Program ShellCall CallResult β} {Q : β → Os files → Prop} (h : ShellStarted files inodes blocks args k)
    (hp : ∀ os : Os files, os.Fresh args → p.Ensures (shellOs code files k.fs) Q os) :
    p.Ensures (shellKernel code) (fun b s => ∃ os, ShellSees files inodes blocks k.fs s os ∧ Q b os) ⟨k, []⟩ := by
  obtain ⟨os, hfresh, hsees⟩ := h.shellSees
  exact (shell_refines code files inodes blocks k.fs).ensures (hp os hfresh) hsees

end Start

/-- The small machine after three ticks, with a shell on each terminal. -/
def dotShells : Kernel := (pitHandler (pitHandler dotShell frame₀ frame₀).1 frame₀ frame₀).1

private theorem dotShells_program : ProgramStarted [dotFile, shellFile] 1 1 [] dotShells := by
  have hfirst : (pitHandler (entry dotBoot) frame₀ frame₀).2 = .launched 0x8048000 := by decide +kernel
  have hsecond : (pitHandler dotShell frame₀ frame₀).2 = .launched 0x8048000 := by decide +kernel
  have hthird : (pitHandler (pitHandler dotShell frame₀ frame₀).1 frame₀ frame₀).2 = .launched 0x8048000 := by
    decide +kernel
  obtain ⟨k₁, hsame, hres, heq⟩ := tick_launches hsecond
  have hcalls : Run CallStep dotShell [.interrupt, .execute (some (asBytes "shell")) frame₀]
      (pitHandler dotShell frame₀ frame₀).1 := by
    rw [heq]
    exact .snoc (.single (.interrupt hsame)) .execute
  exact .of_tick dotImage_layout hfirst hcalls hthird

private theorem dotShells_stacksOk : StacksOk dotShells where
  top := by decide +kernel
  room := by decide +kernel
  esp0 := by decide +kernel

theorem dotShells_started : ShellStarted [dotFile, shellFile] 1 1 [] dotShells where
  started := dotShells_program
  base := by
    show ∀ p : Fin 6, p.val < 3 → dotShells.inUse p = true
    decide +kernel
  room := ⟨3, by decide +kernel⟩
  stacksOk := dotShells_stacksOk

/-- It runs cat on its only program. -/
theorem dotShells_executes :
    (send (.execute (asBytes "shell shell"))).Ensures (shellKernel fun _ => cat 41 fun _ => 0)
      (fun r s => ∃ os, ShellSees [dotFile, shellFile] 1 1 dotShells.fs s os ∧
        (r = (0, []) ∧ os.out = shellFile.contents)) ⟨dotShells, []⟩ := by
  have houtcome : execOutcome dotShells.fs (some (asBytes "shell shell")) = .launched 0x8048000 := by decide +kernel
  have hargs : firstWord (afterWord (asBytes "shell shell")) = asBytes "shell" := by decide
  have hresult : catResult [dotFile, shellFile] (asBytes "shell") = (0, shellFile.contents) := by decide +kernel
  refine shells_refine (p := send (.execute (asBytes "shell shell")))
    (Q := fun r os => r = (0, []) ∧ os.out = shellFile.contents) dotShells_started fun os hfresh => ?_
  refine ensures_execute houtcome fun os₀ h₀ => ?_
  rw [hargs] at h₀
  have hprints := cat_ensures (n := 41) dotImage_layout.distinct (by decide +kernel) h₀ (by decide +kernel) fun _ => 0
  rw [hresult] at hprints
  refine hprints.mono fun a os₁ hout => ⟨rfl, ?_⟩
  rw [Os.moveTo_out, Os.print_out, hfresh.out, hout.2]
  rfl

end BigChungOS
