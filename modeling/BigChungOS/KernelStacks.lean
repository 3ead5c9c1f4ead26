import BigChungOS.ProgramView

/-!
# The kernel stack under a program that runs

A `sys_execute` call waits on the kernel stack its caller has trapped on, until the program it has launched halts.
Every trap goes to the top of the stack of `tss.esp0`, so the call is safe as long as `tss.esp0` is another one.  A
launch gives the new program a stack of its own (`StacksOk.launched_ne`) and puts it on top of the current terminal.
From then on its calls leave `tss.esp0` and the terminals alone, and so do the interrupts that leave the current
terminal alone, since the ticks among them store the stack of its top again (`StackKept`).  Behind the halt the stacks
of the terminals are those of before (`StacksOk.halted`).
-/

namespace BigChungOS

open Memory

/-- An interrupt that leaves the current terminal alone: not one that switches to another terminal, as a function key
and the fourth tick may do. -/
def QuietInterrupt (k k' : Kernel) : Prop := Interrupt k k' ∧ k'.currTerminal = k.currTerminal

/-- Each terminal has a process in use on top, with room for another one, and `tss.esp0` is the stack of a process in
use. -/
structure StacksOk (k : Kernel) : Prop where
  top : ∀ t, ∃ p : Fin 6, k.inUse p = true ∧ (k.terminals t).top = p.val
  room : ∀ t, 0 ≤ (k.terminals t).currProcess ∧ (k.terminals t).currProcess ≤ 4
  esp0 : ∃ p : Fin 6, k.inUse p = true ∧ k.tss.esp0 = kernelStack p.val

/-- `tss.esp0` is the stack of the process on top of the current terminal. -/
def TopStack (k : Kernel) : Prop := k.tss.esp0 = kernelStack k.curr.top

/-- `tss.esp0`, the current terminal and the stacks of the terminals stay as they are. -/
structure StackKept (k k' : Kernel) : Prop where
  esp0 : k'.tss.esp0 = k.tss.esp0
  currTerminal : k'.currTerminal = k.currTerminal
  procs : ∀ t, (k'.terminals t).procs = (k.terminals t).procs
  currProcess : ∀ t, (k'.terminals t).currProcess = (k.terminals t).currProcess

section Kept

variable {k k' k'' : Kernel}

theorem StackKept.refl (k : Kernel) : StackKept k k := ⟨rfl, rfl, fun _ => rfl, fun _ => rfl⟩

theorem StackKept.trans (h : StackKept k k') (h' : StackKept k' k'') : StackKept k k'' where
  esp0 := h'.esp0.trans h.esp0
  currTerminal := h'.currTerminal.trans h.currTerminal
  procs t := (h'.procs t).trans (h.procs t)
  currProcess t := (h'.currProcess t).trans (h.currProcess t)

theorem StackKept.top (h : StackKept k k') (t : Fin 3) : (k'.terminals t).top = (k.terminals t).top := by
  unfold TerminalT.top TerminalT.proc
  rw [h.procs, h.currProcess]

theorem StackKept.topStack (h : StackKept k k') (ht : TopStack k) : TopStack k' := by
  rw [TopStack, h.esp0, Kernel.curr, h.top, h.currTerminal]
  exact ht

theorem StackKept.stacksOk (h : StackKept k k') (hinUse : k'.inUse = k.inUse) (hk : StacksOk k) : StacksOk k' where
  top t := by
    rw [hinUse, h.top]
    exact hk.top t
  room t := by
    rw [h.currProcess]
    exact hk.room t
  esp0 := by
    rw [hinUse, h.esp0]
    exact hk.esp0

/-! ### The calls -/

private theorem stackKept_of_terminals (htss : k'.tss = k.tss) (hcurr : k'.currTerminal = k.currTerminal)
    (hterminals : k'.terminals = k.terminals) : StackKept k k' where
  esp0 := by rw [htss]
  currTerminal := hcurr
  procs _ := by rw [hterminals]
  currProcess _ := by rw [hterminals]

theorem FilesOnly.stackKept (h : FilesOnly k k') : StackKept k k' :=
  stackKept_of_terminals h.tss h.currTerminal h.terminals

private theorem setFd_stackKept (k : Kernel) (d : Fin 8) (f : FdTable → FdTable) : StackKept k (k.setFd d f) :=
  (setFd_filesOnly k d f).stackKept

private theorem sysOpen_stackKept {filename : Nat → UInt8} {r : Int} (h : sysOpen k filename = some (k', r)) :
    StackKept k k' := by
  rcases sysOpen_cases h with rfl | ⟨d, f, ⟨c, rfl⟩ | rfl⟩
  · exact .refl k'
  · exact (setFd_stackKept k d f).trans (stackKept_of_terminals rfl rfl rfl)
  · exact (setFd_stackKept k d f).trans (stackKept_of_terminals rfl rfl rfl)

private theorem lineTaken_stackKept (k : Kernel) : StackKept k (lineTaken k) where
  esp0 := rfl
  currTerminal := rfl
  procs t := by by_cases ht : t = k.onScreen <;> simp [lineTaken, Kernel.setTerminal, ht]
  currProcess t := by by_cases ht : t = k.onScreen <;> simp [lineTaken, Kernel.setTerminal, ht]

private theorem sysRead_stackKept {fd nbytes r : Int} {buf : Ptr} {stored : List UInt8}
    (h : sysRead k fd buf nbytes = some (k', r, stored)) : StackKept k k' := by
  rcases sysRead_cases h with ⟨c, rfl⟩ | rfl | ⟨d, f, rfl⟩ | rfl
  · exact stackKept_of_terminals rfl rfl rfl
  · exact stackKept_of_terminals rfl rfl rfl
  · exact setFd_stackKept k d f
  · exact lineTaken_stackKept k

private theorem sysWrite_stackKept {fd nbytes r : Int} {buf : Ptr} (h : sysWrite k fd buf nbytes = some (k', r)) :
    StackKept k k' := by
  rcases sysWrite_cases h with ⟨c, rfl⟩ | ⟨s, rfl⟩
  · exact stackKept_of_terminals rfl rfl rfl
  · rw [puts_eq]
    exact stackKept_of_terminals rfl rfl rfl

private theorem sysGetargs_stackKept {nbytes : Int} {g : Getargs} (h : sysGetargs k nbytes = some (k', g)) :
    StackKept k k' := by
  unfold sysGetargs at h
  dsimp only at h
  split_ifs at h <;> cases h <;> exact stackKept_of_terminals rfl rfl rfl

private theorem sysVidmap_stackKept {screenStart : Nat} {r : Int} (h : sysVidmap k screenStart = some (k', r)) :
    StackKept k k' := by
  unfold sysVidmap at h
  split_ifs at h <;> cases h <;> exact stackKept_of_terminals rfl rfl rfl

/-- A call comes after the interrupts, and leaves the stacks alone. -/
theorem Returns.stackKept {I : Kernel → Kernel → Prop} {s s' : UserSession} {c : Syscall} {r : CallResult}
    (h : Returns I s c r s') : ∃ k, Relation.ReflTransGen I s.kernel k ∧ StackKept k s'.kernel := by
  cases h with
  | open_ hint _ hcall => exact ⟨_, hint, sysOpen_stackKept hcall⟩
  | read hint hcall => exact ⟨_, hint, sysRead_stackKept hcall⟩
  | write hint _ hcall => exact ⟨_, hint, sysWrite_stackKept hcall⟩
  | close hint => exact ⟨_, hint, (sysClose_filesOnly _ _).stackKept⟩
  | getargs hint hcall => exact ⟨_, hint, sysGetargs_stackKept hcall⟩
  | vidmap hint hcall => exact ⟨_, hint, sysVidmap_stackKept hcall⟩
  | number hint _ => exact ⟨_, hint, .refl _⟩

/-! ### The interrupts -/

private theorem keyboardHandler_tss (k : Kernel) (scanCode : Nat) (past : UInt8) :
    (keyboardHandler k scanCode past).1.tss = k.tss := by
  refine keyboardHandler_keeps (P := fun k' => k'.tss = k.tss) rfl scanCode past ?_ ?_ ?_ ?_ ?_ ?_
  · exact fun _ _ _ h => h
  · exact fun _ _ h => h
  · exact fun _ h => h
  · exact fun _ h => h
  · exact fun _ h => h
  · exact fun k n h => (switchTerminalKeypress_tss k n).trans h

private theorem pitHandler_currTerminal (hlate : 3 ≤ k.pitCount) (frame execFrame : Frame) :
    (pitHandler k frame execFrame).1.currTerminal = tickTerminal k := by
  have hcount : ¬(pitSave k frame).pitCount < 3 := by
    show ¬k.pitCount < 3
    omega
  have hsaved : (pitSave k frame).pitCount = k.pitCount := rfl
  have hge : ¬k.pitCount < 3 := by omega
  unfold pitHandler tickTerminal
  dsimp only
  rw [dif_neg hcount, hsaved, dif_neg hge]
  split <;> rfl

/-- After a tick the stack is that of the top of the current terminal. -/
private theorem pitHandler_topStack (hlate : 3 ≤ k.pitCount) (frame execFrame : Frame) :
    TopStack (pitHandler k frame execFrame).1 := by
  obtain ⟨hsame, -, hesp0⟩ := pitHandler_late hlate frame execFrame
  rw [TopStack, hesp0, Kernel.curr, hsame.top, pitHandler_currTerminal hlate]

/-- Whatever an interrupt makes the stack, it is that of a process in use. -/
theorem Interrupt.stacksOk (h : Interrupt k k') (hk : StacksOk k) : StacksOk k' := by
  have hsame := h.interrupted.toSameProcesses
  have htop : ∀ t, ∃ p : Fin 6, k'.inUse p = true ∧ (k'.terminals t).top = p.val := by
    intro t
    rw [hsame.inUse, hsame.top]
    exact hk.top t
  refine ⟨htop, fun t => by rw [hsame.currProcess]; exact hk.room t, ?_⟩
  cases h with
  | key scanCode past =>
    rw [hsame.inUse, keyboardHandler_tss]
    exact hk.esp0
  | tick frame execFrame hlate =>
    obtain ⟨p, hp, hptop⟩ := htop (pitHandler k frame execFrame).1.currTerminal
    exact ⟨p, hp, (pitHandler_topStack hlate frame execFrame).trans (congrArg kernelStack hptop)⟩
  | clock => exact hk.esp0

/-- While the top of the current terminal has the stack, quiet interrupts leave it there. -/
theorem QuietInterrupt.stackKept (h : QuietInterrupt k k') (hk : TopStack k) : StackKept k k' := by
  obtain ⟨h, hcurr⟩ := h
  have hsame := h.interrupted.toSameProcesses
  refine ⟨?_, hcurr, hsame.procs, hsame.currProcess⟩
  cases h with
  | key scanCode past => rw [keyboardHandler_tss]
  | tick frame execFrame hlate =>
    have htop := pitHandler_topStack hlate frame execFrame
    rw [TopStack, Kernel.curr, hcurr, hsame.top] at htop
    exact htop.trans hk.symm
  | clock => rfl

theorem interrupts_stacksOk (h : Relation.ReflTransGen Interrupt k k') (hk : StacksOk k) : StacksOk k' := by
  induction h with
  | refl => exact hk
  | tail _ hlast ih => exact hlast.stacksOk ih

theorem quietInterrupts_stackKept (h : Relation.ReflTransGen QuietInterrupt k k') (hk : TopStack k) :
    StackKept k k' := by
  induction h with
  | refl => exact .refl k
  | tail _ hlast ih => exact ih.trans (hlast.stackKept (ih.topStack hk))

end Kept

/-! ### From the launch to the halt -/

section Launch

variable {k k₁ k₂ k₃ : Kernel} {frame : Frame}

/-- The new program is on top of the current terminal, and has the stack. -/
theorem Launched.topStack (h : Launched k frame k₁) (hk : StacksOk k) : TopStack k₁ := by
  have hroom : 0 ≤ k.curr.currProcess ∧ k.curr.currProcess ≤ 4 := hk.room k.currTerminal
  have hpush := k.curr.push_eq k₁.pidCounter (by omega)
  have hcurr : k₁.curr = k.curr.push k₁.pidCounter := by
    rw [Kernel.curr, h.terminals, h.currTerminal, Function.update_self]
  have htop : k₁.curr.top = k₁.pidCounter.val := by
    rw [hcurr, hpush, TerminalT.top_eq _ (by dsimp only; omega)]
    exact Function.update_self ..
  rw [TopStack, htop, h.tss]

/-- It is not the stack of the caller's trap. -/
theorem StacksOk.launched_ne (hk : StacksOk k) (h : Launched k frame k₁) : k₁.tss.esp0 ≠ k.tss.esp0 := by
  obtain ⟨p, hp, hesp0⟩ := hk.esp0
  have hfree := (getFreePcb_eq_some h.free).1
  rw [h.tss, hesp0]
  intro heq
  have hval := kernelStack_inj (by omega) (by omega) heq
  have hpid : k₁.pidCounter = p := Fin.ext (by omega)
  rw [hpid, hp] at hfree
  cases hfree

/-- The halt takes what the launch has put on the stack of the terminal. -/
theorem StacksOk.halted (hk : StacksOk k) (h : Launched k frame k₁) (hkept : StackKept k₁ k₂)
    (hhalt : HaltReturned k₂ k₃) (hinUse : k₃.inUse = k.inUse) (hprev : k.inUse k₂.prevPid = true) : StacksOk k₃ := by
  have hroom : 0 ≤ k.curr.currProcess ∧ k.curr.currProcess ≤ 4 := hk.room k.currTerminal
  have hpush := k.curr.push_eq k₁.pidCounter (by omega)
  have hcurr : k₂.currTerminal = k.currTerminal := hkept.currTerminal.trans h.currTerminal
  have hother : ∀ t ≠ k.currTerminal, (k₃.terminals t).procs = (k.terminals t).procs ∧
      (k₃.terminals t).currProcess = (k.terminals t).currProcess := by
    intro t ht
    rw [hhalt.terminals, hcurr, Function.update_of_ne ht, hkept.procs, hkept.currProcess, h.terminals,
      Function.update_of_ne ht]
    exact ⟨rfl, rfl⟩
  have hpushed : k₂.curr.currProcess = k.curr.currProcess + 1 ∧
      k₂.curr.procs = Function.update k.curr.procs (k.curr.currProcess + 1) k₁.pidCounter.val := by
    rw [Kernel.curr, hcurr, hkept.procs, hkept.currProcess, h.terminals, Function.update_self, hpush]
    exact ⟨rfl, rfl⟩
  have hpopped : (k₃.terminals k.currTerminal).currProcess = k.curr.currProcess ∧
      (k₃.terminals k.currTerminal).procs = Function.update k₂.curr.procs (k.curr.currProcess + 1) (-1) := by
    rw [hhalt.terminals, hcurr, Function.update_self, k₂.curr.pop_eq (by omega), hpushed.1]
    exact ⟨by dsimp only; omega, rfl⟩
  refine ⟨fun t => ?_, fun t => ?_, k₂.prevPid, hinUse ▸ hprev, by rw [hhalt.tss]⟩
  · rw [hinUse]
    obtain ⟨p, hp, htop⟩ := hk.top t
    refine ⟨p, hp, ?_⟩
    have hle := hk.room t
    rw [TerminalT.top_eq _ (by omega)] at htop
    by_cases ht : t = k.currTerminal
    · subst ht
      have hval : k.curr.procs k.curr.currProcess = p.val := htop
      rw [TerminalT.top_eq _ (by omega), hpopped.1, hpopped.2, Function.update_of_ne (by omega), hpushed.2,
        Function.update_of_ne (by omega), hval]
    · obtain ⟨hprocs, hcount⟩ := hother t ht
      rw [TerminalT.top_eq _ (by omega), hprocs, hcount, htop]
  · by_cases ht : t = k.currTerminal
    · subst ht
      omega
    · rw [(hother t ht).2]
      exact hk.room t

end Launch

end BigChungOS
