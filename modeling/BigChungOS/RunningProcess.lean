import BigChungOS.Lib.Runs
import BigChungOS.Timer

/-!
# The running process and its kernel stack

While user code runs, `tss.esp0` should be the kernel stack of `pid_counter` and `page_directory[32]` its page
(`Owns`).  `sys_execute` and `sys_halt` set the three together, whatever the state was.  A tick sets `tss.esp0` alone,
from the terminal it leaves current, while `pid_counter` and the page stay: it keeps the agreement exactly when the
process on top of that terminal is the running one (`running_process_iff`).
-/

namespace BigChungOS

open Memory Transition

/-- The kernel stack and the user page are those of the running process. -/
structure Owns (k : Kernel) : Prop where
  esp0 : k.tss.esp0 = kernelStack k.pidCounter.val
  userPage : userBase k.paging = userFrame k.pidCounter

/-! ### The system calls -/

section Calls

variable {k k' : Kernel}

private theorem Launched.owns {frame : Frame} (h : Launched k frame k') : Owns k' where
  esp0 := by rw [h.tss]
  userPage := by
    rw [h.paging]
    exact userBase_updateUserAddr _ _

private theorem Failed.owns (h : Failed k k') (ho : Owns k) : Owns k' where
  esp0 := by rw [h.tss, h.pidCounter]; exact ho.esp0
  userPage := by rw [h.paging, h.pidCounter]; exact ho.userPage

private theorem SameProcesses.owns (h : SameProcesses k k') (htss : k'.tss = k.tss) (ho : Owns k) : Owns k' where
  esp0 := by rw [htss, h.pidCounter]; exact ho.esp0
  userPage := by rw [h.paging, h.pidCounter]; exact ho.userPage

/-- The end of `sys_halt` sets the stack and the page of the process it resumes, whatever they were. -/
private theorem HaltReturned.owns (h : HaltReturned k k') : Owns k' where
  esp0 := by rw [h.tss, h.pidCounter]
  userPage := by
    rw [h.paging, h.pidCounter]
    exact userBase_updateUserAddr _ _

private theorem sysHalt_owns {status : UInt8} {frame : Frame} (h : (sysHalt k status frame).2 ≠ .faulted) :
    Owns (sysHalt k status frame).1 := by
  have hend := sysHalt_ended k status frame
  generalize (sysHalt k status frame).1 = k', (sysHalt k status frame).2 = res at h hend ⊢
  cases hend with
  | other _ hreturn => exact hreturn.owns
  | failed _ _ hreturn => exact hreturn.owns
  | relaunched _ hlaunch => exact hlaunch.owns
  | faulted => exact absurd rfl h

/-! ### The process arrays hold pids -/

/-- Every cell of `procs` is -1 or a pid, and `curr_process` does not stay behind the array. -/
structure ProcsInRange (k : Kernel) : Prop where
  cells : ∀ t i, -1 ≤ (k.terminals t).procs i ∧ (k.terminals t).procs i ≤ 5
  inArray : ∀ t, (k.terminals t).currProcess ≤ 5

theorem ProcsInRange.top (hk : ProcsInRange k) (t : Fin 3) :
    -1 ≤ (k.terminals t).top ∧ (k.terminals t).top ≤ 5 := by
  have hlast := hk.inArray t
  rw [TerminalT.top_eq _ (by omega)]
  exact hk.cells t _

private theorem ProcsInRange.of_terminals (hk : ProcsInRange k) (h : k'.terminals = k.terminals) : ProcsInRange k' where
  cells := by
    rw [h]
    exact hk.cells
  inArray := by
    rw [h]
    exact hk.inArray

private theorem SameProcesses.procsInRange (h : SameProcesses k k') (hk : ProcsInRange k) : ProcsInRange k' where
  cells t i := by
    rw [h.procs]
    exact hk.cells t i
  inArray t := by
    rw [h.currProcess]
    exact hk.inArray t

/-- Storing -1 or a pid on the current terminal. -/
private theorem ProcsInRange.update (hk : ProcsInRange k) {u : TerminalT} (hcurr : u.currProcess ≤ 5)
    (hu : u.procs = k.curr.procs ∨ ∃ j x, (-1 ≤ x ∧ x ≤ 5) ∧ u.procs = Function.update k.curr.procs j x)
    (h : k'.terminals = Function.update k.terminals k.currTerminal u) : ProcsInRange k' where
  cells t i := by
    rw [h]
    by_cases ht : t = k.currTerminal
    · subst ht
      have hcell : -1 ≤ k.curr.procs i ∧ k.curr.procs i ≤ 5 := hk.cells k.currTerminal i
      rw [Function.update_self]
      obtain hu | ⟨j, x, hx, hu⟩ := hu
      · rwa [hu]
      · rw [hu]
        by_cases hi : i = j
        · subst hi; simpa using hx
        · simpa [hi] using hcell
    · simpa [ht] using hk.cells t i
  inArray t := by
    rw [h]
    by_cases ht : t = k.currTerminal
    · subst ht
      rwa [Function.update_self]
    · simpa [ht] using hk.inArray t

private theorem Launched.procsInRange {frame : Frame} (hk : ProcsInRange k) (h : Launched k frame k') :
    ProcsInRange k' := by
  have hcurr : k.curr.currProcess ≤ 5 := hk.inArray k.currTerminal
  by_cases hfull : k.curr.currProcess = 5
  · -- the push lands on `curr_process`
    have hpush := k.curr.push_full k'.pidCounter hfull
    refine hk.update ?_ (.inl ?_) h.terminals
    · rw [hpush]
      dsimp only
      omega
    · rw [hpush]
  · have hpush := k.curr.push_eq k'.pidCounter hfull
    refine hk.update ?_ (.inr ⟨k.curr.currProcess + 1, k'.pidCounter.val, by omega, ?_⟩) h.terminals
    · rw [hpush]
      dsimp only
      omega
    · rw [hpush]

private theorem HaltReturned.procsInRange (hk : ProcsInRange k) (h : HaltReturned k k') : ProcsInRange k' := by
  have hcurr : k.curr.currProcess ≤ 5 := hk.inArray k.currTerminal
  have hpop := k.curr.pop_eq (by omega)
  refine hk.update ?_ (.inr ⟨k.curr.currProcess, -1, by omega, ?_⟩) h.terminals
  · rw [hpop]
    dsimp only
    omega
  · rw [hpop]

private theorem sysExecute_procsInRange (hk : ProcsInRange k) (command : Option (List UInt8)) (frame : Frame) :
    ProcsInRange (sysExecute k command frame).1 := by
  cases hres : (sysExecute k command frame).2 with
  | error => exact hk.of_terminals (sysExecute_failed hres).terminals
  | launched eip => exact (sysExecute_launched hres).procsInRange hk
  | faulted => exact hk.of_terminals (sysExecute_faulted hres).terminals

private theorem sysHalt_procsInRange (hk : ProcsInRange k) (status : UInt8) (frame : Frame) :
    ProcsInRange (sysHalt k status frame).1 := by
  have hrel : ProcsInRange (released k) := hk.of_terminals (released_spec k).terminals
  refine sysHalt_keeps hrel ?_ ?_
  · exact fun _ h => sysExecute_procsInRange h _ frame
  · exact fun _ h => (haltReturn_spec _ status).procsInRange h

/-- The kernel stacks of different cells' processes differ. -/
theorem kernelStack_inj {x y : Int} (hx : -1 ≤ x ∧ x ≤ 5) (hy : -1 ≤ y ∧ y ≤ 5) (h : kernelStack x = kernelStack y) :
    x = y := by
  unfold kernelStack toUInt32 at h
  omega

end Calls

/-! ### The machine -/

/-- Whether the processor waits for the first shell, runs a user program, or is about to enter the handler of a page
fault in `sys_execute`. -/
inductive Mode
  | idle
  | user
  | faulted
deriving DecidableEq

structure Machine where
  kernel : Kernel
  mode : Mode

/-- `finishTick` and `finishHalt` are the rest of `pit_handler` and of `sys_halt` after a call of `sys_execute`, where
a process launched by that call resumes them when it halts. -/
inductive Event
  | tick (frame execFrame : Frame)
  | switch (targetTerminal : Nat)
  | execute (command : Option (List UInt8)) (frame : Frame)
  | halt (status : UInt8) (frame : Frame)
  | exception (message : List UInt8) (frame : Frame)
  | finishTick
  | finishHalt (status : UInt8)

/-- The mode after a tick that interrupted `mode`. -/
def PitResult.mode (mode : Mode) : PitResult → Mode
  | .launched _ => .user
  | .returned _ => mode
  | .faulted => .faulted

/-- The mode after a call of `sys_execute` by a user program. -/
def ExecResult.mode : ExecResult → Mode
  | .error | .launched _ => .user
  | .faulted => .faulted

/-- The mode after a `sys_halt`. -/
def HaltResult.mode : HaltResult → Mode
  | .relaunched _ | .resumed _ _ => .user
  | .faulted => .faulted

/-- The exception handlers of interrupt_handler.c: print, set `flag_exception`, and halt with the low byte of 256. -/
def raiseException (k : Kernel) (message : List UInt8) (frame : Frame) : Kernel × HaltResult :=
  sysHalt { puts k message with flagException := true } 0 frame

/-- One event.  The timer and the keyboard interrupt user programs and the idle kernel; calls and exceptions come from
user programs, and the exception also from a fault in `sys_execute`. -/
inductive MachineStep : Machine → Event → Machine → Prop
  | tick {k : Kernel} {mode : Mode} {frame execFrame : Frame} (h : mode ≠ .faulted) :
      MachineStep ⟨k, mode⟩ (.tick frame execFrame)
        ⟨(pitHandler k frame execFrame).1, (pitHandler k frame execFrame).2.mode mode⟩
  | switch {k : Kernel} {mode : Mode} {targetTerminal : Nat} (h : mode ≠ .faulted) :
      MachineStep ⟨k, mode⟩ (.switch targetTerminal) ⟨switchTerminalKeypress k targetTerminal, mode⟩
  | execute {k : Kernel} {command : Option (List UInt8)} {frame : Frame} :
      MachineStep ⟨k, .user⟩ (.execute command frame)
        ⟨(sysExecute k command frame).1, (sysExecute k command frame).2.mode⟩
  | halt {k : Kernel} {status : UInt8} {frame : Frame} :
      MachineStep ⟨k, .user⟩ (.halt status frame) ⟨(sysHalt k status frame).1, (sysHalt k status frame).2.mode⟩
  | exception {k : Kernel} {mode : Mode} {message : List UInt8} {frame : Frame} (h : mode ≠ .idle) :
      MachineStep ⟨k, mode⟩ (.exception message frame)
        ⟨(raiseException k message frame).1, (raiseException k message frame).2.mode⟩
  | finishTick {k : Kernel} : MachineStep ⟨k, .user⟩ .finishTick ⟨(pitReturn k).1, .user⟩
  | finishHalt {k : Kernel} {status : UInt8} :
      MachineStep ⟨k, .user⟩ (.finishHalt status) ⟨(haltReturn k status).1, .user⟩

/-- While user code runs, the kernel stack and the user page are those of the running process. -/
def RunsOwn (m : Machine) : Prop := m.mode = .user → Owns m.kernel

/-- A tick that does not leave the handler through `sys_execute`. -/
def TickReturns (k : Kernel) : Prop :=
  3 ≤ k.pitCount ∨ getFreePcb k = none ∨ execOutcome k.fs (some (asBytes "shell")) = .error

/-- A tick that returns to a user program finds the running process on top of the terminal it leaves current. -/
def TopRuns (m : Machine) : Event → Prop
  | .tick _ _ =>
    m.mode = .user → TickReturns m.kernel →
      (m.kernel.terminals (tickTerminal m.kernel)).top = m.kernel.pidCounter.val
  | .finishTick => m.kernel.curr.top = m.kernel.pidCounter.val
  | _ => True

section Step

variable {k : Kernel}

private theorem getFreePcb_congr {k' : Kernel} (h : k'.inUse = k.inUse) : getFreePcb k' = getFreePcb k := by
  have hp : ∀ p, (k'.allPcbs p).inUse = (k.allPcbs p).inUse := congrFun h
  simp only [getFreePcb, hp]

/-- Setting `tss.esp0` for the top of a terminal suits the running process when it is that top. -/
private theorem owns_iff_top {k' : Kernel} {x : Int} (hx : -1 ≤ x ∧ x ≤ 5) (ho : Owns k)
    (hsame : SameProcesses k k') (hesp0 : k'.tss.esp0 = kernelStack x) : Owns k' ↔ x = k.pidCounter.val := by
  have hpid : (-1 : Int) ≤ k.pidCounter.val ∧ (k.pidCounter.val : Int) ≤ 5 := by omega
  constructor
  · intro ho'
    have hesp := ho'.esp0
    rw [hesp0, hsame.pidCounter] at hesp
    exact kernelStack_inj hx hpid hesp
  · intro hx
    exact
      { esp0 := by rw [hesp0, hsame.pidCounter, hx]
        userPage := by rw [hsame.paging, hsame.pidCounter]; exact ho.userPage }

private theorem pitReturn_owns_iff (hk : ProcsInRange k) (ho : Owns k) :
    Owns (pitReturn k).1 ↔ k.curr.top = k.pidCounter.val :=
  owns_iff_top (hk.top k.currTerminal) ho (pitReturn_sameProcesses k) (pitReturn_esp0 k)

/-- Whether a boot tick returns is decided before it. -/
private theorem tickReturns_iff (h : k.pitCount < 3) (frame execFrame : Frame) :
    TickReturns k ↔ (sysExecute (pitBoot k frame h) (some (asBytes "shell")) execFrame).2 = .error := by
  have hsame := pitBoot_sameProcesses k frame h
  rw [sysExecute_result, getFreePcb_congr hsame.inUse, hsame.fs, TickReturns]
  by_cases hfull : getFreePcb k = none
  · simp [hfull]
  · have hearly : ¬3 ≤ k.pitCount := by omega
    simp [hfull, hearly]

/-- A tick that leaves the handler through `sys_execute` or in a fault. -/
private theorem runsOwn_of_not_returns {mode : Mode} {m : Machine} (hm : RunsOwn m) (hnot : ¬TickReturns k)
    (frame execFrame : Frame) : RunsOwn m ↔ TopRuns ⟨k, mode⟩ (.tick frame execFrame) :=
  ⟨fun _ _ hreturns => absurd hreturns hnot, fun _ => hm⟩

/-- The tick, by the ways it ends. -/
private theorem tick_runsOwn_iff (hk : ProcsInRange k) {mode : Mode} (ho : RunsOwn ⟨k, mode⟩)
    (frame execFrame : Frame) : RunsOwn ⟨(pitHandler k frame execFrame).1, (pitHandler k frame execFrame).2.mode mode⟩ ↔
      TopRuns ⟨k, mode⟩ (.tick frame execFrame) := by
  have hend := pitHandler_ended k frame execFrame
  generalize (pitHandler k frame execFrame).1 = k', (pitHandler k frame execFrame).2 = res at hend ⊢
  cases hend with
  | launched h hres =>
    have hreturns := tickReturns_iff h frame execFrame
    rw [hres] at hreturns
    exact runsOwn_of_not_returns (fun _ => (sysExecute_launched hres).owns) (by simp [hreturns]) frame execFrame
  | faulted h hres =>
    have hreturns := tickReturns_iff h frame execFrame
    rw [hres] at hreturns
    exact runsOwn_of_not_returns (fun hmode => by cases hmode) (by simp [hreturns]) frame execFrame
  | failed h hres =>
    have hreturns := tickReturns_iff h frame execFrame
    have hsame := pitBoot_sameProcesses k frame h
    obtain ⟨htss, hcurr, -⟩ := pitBoot_fields k frame h
    have hfail := sysExecute_failed hres
    generalize (sysExecute (pitBoot k frame h) (some (asBytes "shell")) execFrame).1 = k₁ at hfail ⊢
    have htick : tickTerminal k = ⟨k.pitCount, h⟩ := dif_pos h
    have htop : k₁.curr.top = (k.terminals (tickTerminal k)).top := by
      rw [Kernel.curr, hfail.terminals, hfail.currTerminal, hcurr, hsame.top, htick]
    have hpid : k₁.pidCounter = k.pidCounter := hfail.pidCounter.trans hsame.pidCounter
    have hk₁ : ProcsInRange k₁ := (hsame.procsInRange hk).of_terminals hfail.terminals
    have hiff : mode = .user → (Owns (pitReturn k₁).1 ↔ (k.terminals (tickTerminal k)).top = k.pidCounter.val) := by
      intro hmode
      have ho₁ := hfail.owns (hsame.owns htss (ho hmode))
      rw [pitReturn_owns_iff hk₁ ho₁, htop, hpid]
    exact ⟨fun h hmode _ => (hiff hmode).1 (h hmode), fun h hmode => (hiff hmode).2 (h hmode (hreturns.2 hres))⟩
  | late hlate hsame hesp0 =>
    have hiff : mode = .user → (Owns k' ↔ (k.terminals (tickTerminal k)).top = k.pidCounter.val) :=
      fun hmode => owns_iff_top (hk.top _) (ho hmode) hsame hesp0
    exact ⟨fun h hmode _ => (hiff hmode).1 (h hmode), fun h hmode => (hiff hmode).2 (h hmode (.inl hlate))⟩

private theorem pitHandler_procsInRange (hk : ProcsInRange k) (frame execFrame : Frame) :
    ProcsInRange (pitHandler k frame execFrame).1 := by
  refine pitHandler_keeps_of_processes hk ?_ ?_
  · exact fun _ _ hsame h => hsame.procsInRange h
  · exact fun _ h => sysExecute_procsInRange h _ execFrame

/-- Every event but a tick, and the rest of one, gives the running process its stack and its page. -/
private theorem step_runsOwn_iff {m m' : Machine} {e : Event} (hk : ProcsInRange m.kernel) (ho : RunsOwn m)
    (h : MachineStep m e m') : RunsOwn m' ↔ TopRuns m e := by
  cases h with
  | tick hmode => exact tick_runsOwn_iff hk ho _ _
  | @switch k mode targetTerminal hmode =>
    have hsame := switchTerminalKeypress_sameProcesses k targetTerminal
    exact ⟨fun _ => trivial, fun _ hm => hsame.owns (switchTerminalKeypress_tss k targetTerminal) (ho hm)⟩
  | @execute k command frame =>
    refine ⟨fun _ => trivial, fun _ hm => ?_⟩
    cases hres : (sysExecute k command frame).2 with
    | error => exact (sysExecute_failed hres).owns (ho rfl)
    | launched eip => exact (sysExecute_launched hres).owns
    | faulted =>
      rw [hres] at hm
      cases hm
  | @halt k status frame =>
    refine ⟨fun _ => trivial, fun _ hm => sysHalt_owns fun hfault => ?_⟩
    rw [hfault] at hm
    cases hm
  | @exception k mode message frame hmode =>
    refine ⟨fun _ => trivial, fun _ hm => sysHalt_owns fun hfault => ?_⟩
    have hfault' : (raiseException k message frame).2 = .faulted := hfault
    rw [hfault'] at hm
    cases hm
  | @finishTick k =>
    have hiff := pitReturn_owns_iff hk (ho rfl)
    exact ⟨fun h => hiff.1 (h rfl), fun h _ => hiff.2 h⟩
  | @finishHalt k status => exact ⟨fun _ => trivial, fun _ _ => (haltReturn_spec k status).owns⟩

private theorem step_procsInRange {m m' : Machine} {e : Event} (hk : ProcsInRange m.kernel) (h : MachineStep m e m') :
    ProcsInRange m'.kernel := by
  cases h with
  | tick hmode => exact pitHandler_procsInRange hk _ _
  | switch hmode => exact (switchTerminalKeypress_sameProcesses _ _).procsInRange hk
  | execute => exact sysExecute_procsInRange hk _ _
  | halt => exact sysHalt_procsInRange hk _ _
  | @exception k mode message frame hmode =>
    have hputs : ProcsInRange { puts k message with flagException := true } :=
      hk.of_terminals (by rw [puts_eq])
    exact sysHalt_procsInRange hputs _ _
  | @finishTick k => exact (pitReturn_sameProcesses k).procsInRange hk
  | @finishHalt k status => exact (haltReturn_spec k status).procsInRange hk

end Step

/-! ### Runs -/

/-- The running process owns its kernel stack and its page.  From boot on, along every run in which each tick that
returns to a user program finds the running process on top of the terminal it leaves current, the agreement holds
whenever user code runs; and from there an event keeps it exactly when it meets the condition. -/
theorem running_process_iff {b : Boot} {events : List Event} {m : Machine}
    (hrun : Run (Guarded TopRuns MachineStep) ⟨entry b, .idle⟩ events m) :
    RunsOwn m ∧ ∀ e m', MachineStep m e m' → (RunsOwn m' ↔ TopRuns m e) := by
  refine Run.guarded_exact (I := fun m => ProcsInRange m.kernel) ?_ ?_ hrun ?_ ?_
  · exact fun m e m' hk _ _ hstep => step_procsInRange hk hstep
  · exact fun m e m' hk ho hstep => step_runsOwn_iff hk ho hstep
  · constructor
    · intro t i
      simp only [entry, clear, startTerminals, bootKernel]
      rw [puts_eq]
      simp [zeroKernel]
    · intro t
      exact (show (0 : Int) ≤ 5 by decide)
  · intro hmode
    cases hmode

/-! ### The machine with one program -/

private def tick₀ : Event := .tick frame₀ frame₀

private theorem tick_step {k : Kernel} {mode mode' : Mode} (hmode : mode ≠ .faulted)
    (h : (pitHandler k frame₀ frame₀).2.mode mode = mode') :
    MachineStep ⟨k, mode⟩ tick₀ ⟨(pitHandler k frame₀ frame₀).1, mode'⟩ := by
  have hstep : MachineStep ⟨k, mode⟩ tick₀ ⟨_, (pitHandler k frame₀ frame₀).2.mode mode⟩ := .tick hmode
  rw [h] at hstep
  exact hstep

private theorem first_tick : Guarded TopRuns MachineStep ⟨entry shellBoot, .idle⟩ tick₀ ⟨firstShell, .user⟩ := by
  refine ⟨?_, tick_step (by decide) (by decide +kernel)⟩
  intro hmode
  cases hmode

private theorem second_tick : Guarded TopRuns MachineStep ⟨firstShell, .user⟩ tick₀ ⟨twoShells, .user⟩ := by
  refine ⟨?_, tick_step (by decide) (by decide +kernel)⟩
  intro _ hreturns
  dsimp only at hreturns
  have hnot : ¬TickReturns firstShell := by
    unfold TickReturns
    decide +kernel
  exact absurd hreturns hnot

private theorem third_tick : Guarded TopRuns MachineStep ⟨twoShells, .user⟩ tick₀ ⟨threeShells, .user⟩ := by
  refine ⟨?_, tick_step (by decide) (by decide +kernel)⟩
  intro _ hreturns
  dsimp only at hreturns
  have hnot : ¬TickReturns twoShells := by
    unfold TickReturns
    decide +kernel
  exact absurd hreturns hnot

/-- The three boot ticks, each of which launches a shell. -/
theorem third_shell_runs :
    RunsOwn ⟨threeShells, .user⟩ ∧
      ∀ e m', MachineStep ⟨threeShells, .user⟩ e m' → (RunsOwn m' ↔ TopRuns ⟨threeShells, .user⟩ e) := by
  have hrun : Run (Guarded TopRuns MachineStep) ⟨entry shellBoot, .idle⟩ ([] ++ [tick₀] ++ [tick₀] ++ [tick₀])
      ⟨threeShells, .user⟩ := .snoc (.snoc (.snoc (.nil _) first_tick) second_tick) third_tick
  exact running_process_iff hrun

/-- The fourth tick gives the third shell the kernel stack of the first one. -/
theorem fourth_tick_takes_first_stack :
    let k := (pitHandler threeShells frame₀ frame₀).1
    Run MachineStep ⟨entry shellBoot, .idle⟩ [tick₀, tick₀, tick₀, tick₀] ⟨k, .user⟩ ∧
      k.pidCounter = 2 ∧ k.tss.esp0 = kernelStack 0 ∧ ¬RunsOwn ⟨k, .user⟩ := by
  intro k
  have hpid : k.pidCounter = 2 := by decide +kernel
  have hesp0 : k.tss.esp0 = kernelStack 0 := by decide +kernel
  have hfourth : MachineStep ⟨threeShells, .user⟩ tick₀ ⟨k, .user⟩ := tick_step (by decide) (by decide +kernel)
  have hrun : Run MachineStep ⟨entry shellBoot, .idle⟩ ([] ++ [tick₀] ++ [tick₀] ++ [tick₀] ++ [tick₀]) ⟨k, .user⟩ :=
    .snoc (.snoc (.snoc (.snoc (.nil _) first_tick.2) second_tick.2) third_tick.2) hfourth
  refine ⟨hrun, hpid, hesp0, ?_⟩
  intro ho
  have hown := (ho rfl).esp0
  dsimp only at hown
  rw [hesp0, hpid] at hown
  exact absurd hown (by decide +kernel)

end BigChungOS
