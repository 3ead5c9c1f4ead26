import BigChungOS.Keyboard
import BigChungOS.Processes

/-!
# What the interrupts leave alone

The keyboard handler and the timer interrupt move cursors, screens and lines between the terminals.  They touch no
process (`SameProcesses`), but for two things: one of the first three ticks executes a shell (`pitBoot` is the state in
which it does), and every tick that returns stores in `tss.esp0` the kernel stack of the process on top of the terminal
it leaves current (`pitHandler_late`, `pitReturn_esp0`).  `TickEnded` sums the ways of a tick up, and what all its parts
keep a tick keeps (`pitHandler_keeps`).
-/

namespace BigChungOS

open Memory

/-- The processes of `k'` are those of `k`: their PCBs in use, their descriptors, their stacks, the running one and its
page. -/
structure SameProcesses (k k' : Kernel) : Prop where
  fs : k'.fs = k.fs
  paging : k'.paging = k.paging
  pidCounter : k'.pidCounter = k.pidCounter
  prevPid : k'.prevPid = k.prevPid
  inUse : k'.inUse = k.inUse
  fdt : ∀ p, (k'.allPcbs p).fdt = (k.allPcbs p).fdt
  procs : ∀ t, (k'.terminals t).procs = (k.terminals t).procs
  currProcess : ∀ t, (k'.terminals t).currProcess = (k.terminals t).currProcess

theorem SameProcesses.refl (k : Kernel) : SameProcesses k k where
  fs := rfl
  paging := rfl
  pidCounter := rfl
  prevPid := rfl
  inUse := rfl
  fdt _ := rfl
  procs _ := rfl
  currProcess _ := rfl

theorem SameProcesses.trans {k k' k'' : Kernel} (h : SameProcesses k k') (h' : SameProcesses k' k'') :
    SameProcesses k k'' where
  fs := h'.fs.trans h.fs
  paging := h'.paging.trans h.paging
  pidCounter := h'.pidCounter.trans h.pidCounter
  prevPid := h'.prevPid.trans h.prevPid
  inUse := h'.inUse.trans h.inUse
  fdt p := (h'.fdt p).trans (h.fdt p)
  procs t := (h'.procs t).trans (h.procs t)
  currProcess t := (h'.currProcess t).trans (h.currProcess t)

theorem SameProcesses.top {k k' : Kernel} (h : SameProcesses k k') (t : Fin 3) :
    (k'.terminals t).top = (k.terminals t).top := by
  rw [TerminalT.top, TerminalT.proc, h.procs, h.currProcess, TerminalT.top, TerminalT.proc]

/-- A store to a terminal that leaves its processes alone. -/
private theorem setTerminal_sameProcesses (k : Kernel) (t : Fin 3) {f : TerminalT → TerminalT}
    (hprocs : ∀ r, (f r).procs = r.procs) (hcurr : ∀ r, (f r).currProcess = r.currProcess) :
    SameProcesses k (k.setTerminal t f) :=
  { SameProcesses.refl k with
    procs := fun u => by by_cases h : u = t <;> simp [h, hprocs]
    currProcess := fun u => by by_cases h : u = t <;> simp [h, hcurr] }

/-- A store to a PCB that leaves its `in_use` and its descriptors alone. -/
private theorem setPcb_sameProcesses (k : Kernel) (p : Fin 6) {f : Pcb → Pcb} (huse : ∀ pcb, (f pcb).inUse = pcb.inUse)
    (hfdt : ∀ pcb, (f pcb).fdt = pcb.fdt) : SameProcesses k (k.setPcb p f) :=
  { SameProcesses.refl k with
    inUse := by
      funext q
      by_cases h : q = p
      · subst h; simp [Kernel.inUse, huse]
      · simp [Kernel.inUse, h]
    fdt := fun q => by by_cases h : q = p <;> simp [h, hfdt] }

private theorem puts_sameProcesses (k : Kernel) (s : List UInt8) : SameProcesses k (puts k s) := by
  rw [puts_eq]
  exact { SameProcesses.refl k with }

private theorem saveCursor_sameProcesses (k : Kernel) (t : Fin 3) : SameProcesses k (saveCursor k t) :=
  setTerminal_sameProcesses k t (fun _ => rfl) fun _ => rfl

private theorem loadCursor_sameProcesses (k : Kernel) (t : Fin 3) : SameProcesses k (loadCursor k t) :=
  { SameProcesses.refl k with }

private theorem switchTerminalWork_sameProcesses (k : Kernel) (t : Fin 3) : SameProcesses k (switchTerminalWork k t) :=
  (saveCursor_sameProcesses k k.onScreen).trans (loadCursor_sameProcesses _ t)

/-- The timer's own variables, and `tss`, belong to no process. -/
private theorem timer_sameProcesses (k : Kernel) (t : Fin 3) (n : Nat) (tss : Tss) :
    SameProcesses k { k with currTerminal := t, pitCount := n, tss := tss } :=
  { SameProcesses.refl k with }

/-! ### Switching terminals -/

private theorem switchTo_fields (k : Kernel) (t : Fin 3) :
    (switchTo k t).fs = k.fs ∧ (switchTo k t).paging = k.paging ∧ (switchTo k t).tss = k.tss ∧
      (switchTo k t).pitCount = k.pitCount ∧ (switchTo k t).allPcbs = k.allPcbs ∧
      (switchTo k t).pidCounter = k.pidCounter ∧ (switchTo k t).prevPid = k.prevPid := by
  simp [switchTo, saveCursor, loadCursor, updateScreenAxis]

private theorem switchTo_procs (k : Kernel) (t u : Fin 3) :
    ((switchTo k t).terminals u).procs = (k.terminals u).procs ∧
      ((switchTo k t).terminals u).currProcess = (k.terminals u).currProcess := by
  by_cases h : u = k.onScreen <;> simp [switchTo, saveCursor, loadCursor, updateScreenAxis, h]

private theorem switchTo_sameProcesses (k : Kernel) (t : Fin 3) : SameProcesses k (switchTo k t) := by
  obtain ⟨hfs, hpaging, -, -, hpcbs, hpid, hprev⟩ := switchTo_fields k t
  exact
    { fs := hfs
      paging := hpaging
      pidCounter := hpid
      prevPid := hprev
      inUse := by funext p; rw [Kernel.inUse, hpcbs, Kernel.inUse]
      fdt := fun p => by rw [hpcbs]
      procs := fun u => (switchTo_procs k t u).1
      currProcess := fun u => (switchTo_procs k t u).2 }

theorem switchTerminalKeypress_sameProcesses (k : Kernel) (targetTerminal : Nat) :
    SameProcesses k (switchTerminalKeypress k targetTerminal) := by
  unfold switchTerminalKeypress
  split
  · exact SameProcesses.refl k
  · exact switchTo_sameProcesses k _

theorem switchTerminalKeypress_tss (k : Kernel) (targetTerminal : Nat) :
    (switchTerminalKeypress k targetTerminal).tss = k.tss := by
  unfold switchTerminalKeypress
  split
  · rfl
  · exact (switchTo_fields k _).2.2.1

theorem switchTerminalKeypress_pitCount (k : Kernel) (targetTerminal : Nat) :
    (switchTerminalKeypress k targetTerminal).pitCount = k.pitCount := by
  unfold switchTerminalKeypress
  split
  · rfl
  · exact (switchTo_fields k _).2.2.2.1

/-! ### Keys -/

/-- The keyboard handler changes the screen, the line and `enter_p_flag`, and may switch terminals. -/
theorem keyboardHandler_sameProcesses (k : Kernel) (scanCode : Nat) (past : UInt8) :
    SameProcesses k (keyboardHandler k scanCode past).1 := by
  refine keyboardHandler_keeps (P := SameProcesses k) (SameProcesses.refl k) scanCode past ?_ ?_ ?_ ?_ ?_ ?_
  · exact fun _ _ _ h => { h with }
  · exact fun _ _ h => { h with }
  · exact fun _ h => { h with }
  · exact fun _ h => { h with }
  · exact fun k h => h.trans (setTerminal_sameProcesses k _ (fun _ => rfl) fun _ => rfl)
  · exact fun k n h => h.trans (switchTerminalKeypress_sameProcesses k n)

/-! ### Ticks -/

/-- The start of a tick stores in PCBs and saves the cursor. -/
theorem pitSave_eq (k : Kernel) (frame : Frame) :
    ∃ pcbs, pitSave k frame = saveCursor { k with allPcbs := pcbs } k.currTerminal := ⟨_, rfl⟩

private theorem pitSave_sameProcesses (k : Kernel) (frame : Frame) : SameProcesses k (pitSave k frame) := by
  have hebp := setPcb_sameProcesses k (k.curr.ebp k.curr.currProcess)
    (f := fun pcb => { pcb with ebpTask := frame.ebp }) (fun _ => rfl) fun _ => rfl
  refine hebp.trans ?_
  refine SameProcesses.trans (setPcb_sameProcesses _ (k.curr.esp k.curr.currProcess)
    (f := fun pcb => { pcb with espTask := frame.esp }) (fun _ => rfl) fun _ => rfl) ?_
  exact saveCursor_sameProcesses _ _

theorem pitReturn_sameProcesses (k : Kernel) : SameProcesses k (pitReturn k).1 := by
  have htss := timer_sameProcesses k k.currTerminal k.pitCount { k.tss with esp0 := kernelStack k.curr.top }
  refine htss.trans ?_
  exact setTerminal_sameProcesses _ k.currTerminal (f := fun t =>
    { t with videoBuffer := if k.currTerminal = k.onScreen then mainVideo else termPage k.currTerminal })
    (fun _ => rfl) fun _ => rfl

/-- The end of a tick gives the top of the current terminal its kernel stack. -/
theorem pitReturn_esp0 (k : Kernel) : (pitReturn k).1.tss.esp0 = kernelStack k.curr.top := rfl

/-- The state in which one of the first three ticks calls `sys_execute`. -/
def pitBoot (k : Kernel) (frame : Frame) (h : k.pitCount < 3) : Kernel :=
  let k := pitSelect (pitSave k frame) ⟨k.pitCount, h⟩
  puts k (asBytes "Terminal " ++ itoa k.pitCount 10 ++ asBytes "\n")

/-- The terminal a tick leaves current. -/
def tickTerminal (k : Kernel) : Fin 3 :=
  if h : k.pitCount < 3 then ⟨k.pitCount, h⟩ else if k.pitCount = 3 then 0 else k.currTerminal

private theorem pitSelect_sameProcesses (k : Kernel) (t : Fin 3) : SameProcesses k (pitSelect k t) := by
  have hcurr := timer_sameProcesses k t k.pitCount k.tss
  have hwork := hcurr.trans ((switchTerminalWork_sameProcesses _ t).trans (saveCursor_sameProcesses _ t))
  exact hwork.trans (timer_sameProcesses _ t (k.pitCount + 1) k.tss)

private theorem pitFourth_sameProcesses (k : Kernel) :
    SameProcesses k { switchTerminalWork { k with currTerminal := 0 } 0 with pitCount := 4 } := by
  have hwork := (timer_sameProcesses k 0 k.pitCount k.tss).trans (switchTerminalWork_sameProcesses _ 0)
  exact hwork.trans (timer_sameProcesses _ 0 4 k.tss)

theorem pitBoot_sameProcesses (k : Kernel) (frame : Frame) (h : k.pitCount < 3) :
    SameProcesses k (pitBoot k frame h) :=
  (pitSave_sameProcesses k frame).trans ((pitSelect_sameProcesses _ _).trans (puts_sameProcesses _ _))

/-- The other fields the tick sets before its `sys_execute`. -/
theorem pitBoot_fields (k : Kernel) (frame : Frame) (h : k.pitCount < 3) :
    (pitBoot k frame h).tss = k.tss ∧ (pitBoot k frame h).currTerminal = ⟨k.pitCount, h⟩ ∧
      (pitBoot k frame h).pitCount = k.pitCount + 1 := by
  unfold pitBoot
  dsimp only
  rw [puts_eq]
  simp [pitSelect, pitSave, switchTerminalWork, saveCursor, loadCursor, updateScreenAxis]

theorem pitHandler_early {k : Kernel} (h : k.pitCount < 3) (frame execFrame : Frame) :
    pitHandler k frame execFrame =
      match sysExecute (pitBoot k frame h) (some (asBytes "shell")) execFrame with
      | (k, .launched eip) => (k, .launched eip)
      | (k, .faulted) => (k, .faulted)
      | (k, .error) => pitReturn k := by
  have hcount : (pitSave k frame).pitCount < 3 := h
  unfold pitHandler
  rw [dif_pos hcount]
  rfl

/-- A boot tick whose shell is launched leaves what `sys_execute` has made of the state. -/
theorem pitHandler_early_launched {k : Kernel} (h : k.pitCount < 3) {frame execFrame : Frame} {eip : Int}
    (hres : (sysExecute (pitBoot k frame h) (some (asBytes "shell")) execFrame).2 = .launched eip) :
    (pitHandler k frame execFrame).1 = (sysExecute (pitBoot k frame h) (some (asBytes "shell")) execFrame).1 := by
  rw [pitHandler_early h]
  generalize sysExecute (pitBoot k frame h) (some (asBytes "shell")) execFrame = r at hres ⊢
  obtain ⟨k₁, res⟩ := r
  cases hres
  rfl

/-- A tick after the first three touches no process and gives the top of the terminal it leaves current its kernel
stack. -/
theorem pitHandler_late {k : Kernel} (h : 3 ≤ k.pitCount) (frame execFrame : Frame) :
    SameProcesses k (pitHandler k frame execFrame).1 ∧ 3 ≤ (pitHandler k frame execFrame).1.pitCount ∧
      (pitHandler k frame execFrame).1.tss.esp0 = kernelStack (k.terminals (tickTerminal k)).top := by
  have hcount : ¬(pitSave k frame).pitCount < 3 := by
    show ¬k.pitCount < 3
    omega
  have hsave := pitSave_sameProcesses k frame
  have hsaved : (pitSave k frame).pitCount = k.pitCount := rfl
  unfold pitHandler
  dsimp only
  rw [dif_neg hcount, hsaved]
  split
  · next hthree =>
    generalize pitSave k frame = k₁ at hsave ⊢
    have hcounted := hsave.trans (pitFourth_sameProcesses k₁)
    have ht : tickTerminal k = 0 := by simp [tickTerminal, hthree]
    refine ⟨hcounted.trans (pitReturn_sameProcesses _), ?_, ?_⟩
    · show 3 ≤ 4
      omega
    · rw [ht, ← hcounted.top]
      rfl
  · next hmore =>
    have ht : tickTerminal k = k.currTerminal := by
      have hge : ¬k.pitCount < 3 := hcount
      simp [tickTerminal, hmore, hge]
    refine ⟨hsave.trans (pitReturn_sameProcesses _), h, ?_⟩
    rw [ht, ← hsave.top]
    rfl

private theorem pitHandler_late_result {k : Kernel} (h : 3 ≤ k.pitCount) (frame execFrame : Frame) :
    ∃ returned, (pitHandler k frame execFrame).2 = .returned returned := by
  have hcount : ¬(pitSave k frame).pitCount < 3 := by
    show ¬k.pitCount < 3
    omega
  unfold pitHandler
  dsimp only
  rw [dif_neg hcount]
  split
  · exact ⟨_, rfl⟩
  · exact ⟨_, rfl⟩

/-- What its parts keep, a tick keeps. -/
theorem pitHandler_keeps {P : Kernel → Prop} {k : Kernel} {frame execFrame : Frame} (hsave : P (pitSave k frame))
    (hselect : ∀ k t, P k → P (pitSelect k t)) (hputs : ∀ k s, P k → P (puts k s))
    (hexecute : ∀ k, P k → P (sysExecute k (some (asBytes "shell")) execFrame).1)
    (hfourth : ∀ k, P k → P { switchTerminalWork { k with currTerminal := 0 } 0 with pitCount := 4 })
    (hreturn : ∀ k, P k → P (pitReturn k).1) : P (pitHandler k frame execFrame).1 := by
  by_cases h : k.pitCount < 3
  · have hboot : P (pitBoot k frame h) := hputs _ _ (hselect _ _ hsave)
    have hexecuted := hexecute _ hboot
    rw [pitHandler_early h]
    generalize sysExecute (pitBoot k frame h) (some (asBytes "shell")) execFrame = r at hexecuted ⊢
    obtain ⟨k₁, res⟩ := r
    cases res with
    | error => exact hreturn k₁ hexecuted
    | launched | faulted => exact hexecuted
  · have hcount : ¬(pitSave k frame).pitCount < 3 := h
    unfold pitHandler
    dsimp only
    rw [dif_neg hcount]
    split
    · exact hreturn _ (hfourth _ hsave)
    · exact hreturn _ hsave

/-- What does not depend on more than the processes, and what `sys_execute` keeps, a tick keeps. -/
theorem pitHandler_keeps_of_processes {P : Kernel → Prop} {k : Kernel} {frame execFrame : Frame} (hk : P k)
    (hsame : ∀ k k', SameProcesses k k' → P k → P k')
    (hexecute : ∀ k, P k → P (sysExecute k (some (asBytes "shell")) execFrame).1) :
    P (pitHandler k frame execFrame).1 := by
  refine pitHandler_keeps (hsame _ _ (pitSave_sameProcesses k frame) hk) ?_ ?_ hexecute ?_ ?_
  · exact fun _ t h => hsame _ _ (pitSelect_sameProcesses _ t) h
  · exact fun _ s h => hsame _ _ (puts_sameProcesses _ s) h
  · exact fun _ h => hsame _ _ (pitFourth_sameProcesses _) h
  · exact fun _ h => hsame _ _ (pitReturn_sameProcesses _) h

/-- The ways a tick ends.  One of the first three executes a shell; if that fails, and in every later tick, the handler
comes to its end. -/
inductive TickEnded (k : Kernel) (frame execFrame : Frame) : Kernel → PitResult → Prop
  | launched {eip : Int} (h : k.pitCount < 3)
      (hres : (sysExecute (pitBoot k frame h) (some (asBytes "shell")) execFrame).2 = .launched eip) :
      TickEnded k frame execFrame (sysExecute (pitBoot k frame h) (some (asBytes "shell")) execFrame).1 (.launched eip)
  | faulted (h : k.pitCount < 3)
      (hres : (sysExecute (pitBoot k frame h) (some (asBytes "shell")) execFrame).2 = .faulted) :
      TickEnded k frame execFrame (sysExecute (pitBoot k frame h) (some (asBytes "shell")) execFrame).1 .faulted
  | failed {returned : Frame} (h : k.pitCount < 3)
      (hres : (sysExecute (pitBoot k frame h) (some (asBytes "shell")) execFrame).2 = .error) :
      TickEnded k frame execFrame (pitReturn (sysExecute (pitBoot k frame h) (some (asBytes "shell")) execFrame).1).1
        (.returned returned)
  | late {k' : Kernel} {returned : Frame} (h : 3 ≤ k.pitCount) (hsame : SameProcesses k k')
      (hesp0 : k'.tss.esp0 = kernelStack (k.terminals (tickTerminal k)).top) :
      TickEnded k frame execFrame k' (.returned returned)

theorem pitHandler_ended (k : Kernel) (frame execFrame : Frame) :
    TickEnded k frame execFrame (pitHandler k frame execFrame).1 (pitHandler k frame execFrame).2 := by
  by_cases h : k.pitCount < 3
  · rw [pitHandler_early h]
    generalize hr : sysExecute (pitBoot k frame h) (some (asBytes "shell")) execFrame = r
    have hk : (sysExecute (pitBoot k frame h) (some (asBytes "shell")) execFrame).1 = r.1 := congrArg Prod.fst hr
    have hres : (sysExecute (pitBoot k frame h) (some (asBytes "shell")) execFrame).2 = r.2 := congrArg Prod.snd hr
    obtain ⟨k₁, res⟩ := r
    dsimp only at hk hres
    cases res with
    | launched eip => exact hk ▸ .launched h hres
    | faulted => exact hk ▸ .faulted h hres
    | error =>
      have hfailed : ∀ returned, TickEnded k frame execFrame (pitReturn k₁).1 (.returned returned) :=
        fun _ => hk ▸ .failed h hres
      exact hfailed _
  · have hlate : 3 ≤ k.pitCount := by omega
    obtain ⟨hsame, -, hesp0⟩ := pitHandler_late hlate frame execFrame
    obtain ⟨returned, hres⟩ := pitHandler_late_result hlate frame execFrame
    rw [hres]
    exact .late hlate hsame hesp0

/-- No tick changes the file system. -/
theorem pitHandler_fs (k : Kernel) (frame execFrame : Frame) : (pitHandler k frame execFrame).1.fs = k.fs := by
  refine pitHandler_keeps_of_processes (P := fun k' => k'.fs = k.fs) rfl ?_ ?_
  · exact fun _ _ hsame h => hsame.fs.trans h
  · exact fun _ h => (sysExecute_sameDevices _ _ _).fs.trans h

end BigChungOS
