import BigChungOS.Lib.Runs
import BigChungOS.Processes

/-!
# Programs executed by programs

A base shell executes a program, which executes another one, and so on; when one of them halts its parent goes on.
The nest of processes is the stack of the programs that have not halted yet, and the kernel agrees with it when the
process on top of the stack runs, with its own page and its own kernel stack, and the PCBs in use are those of the
stack (`Nested`).

`sys_execute` keeps this.  `sys_halt` resumes `prev_pid`, one variable for all processes, which names the parent only
until the running process executes a program itself; and it starts a new shell when process 1 or 2 halts.  So a halt
keeps the agreement exactly when it directly follows the execute of the halting process, and that process is
neither 1 nor 2 (`halt_returns_to_parent_iff`).
-/

namespace BigChungOS

open Transition

/-- The kernel with the stack of the processes that have not halted, the running one first.  `fresh` says that the
running process has executed no program since it was launched. -/
structure Nest where
  kernel : Kernel
  stack : List (Fin 6)
  fresh : Bool

inductive NestEvent
  | execute (command : Option (List UInt8)) (frame : Frame)
  | halt (status : UInt8) (frame : Frame)

namespace Nest

/-- The nest after a successful `sys_execute` by the running process. -/
def execute (n : Nest) (command : Option (List UInt8)) (frame : Frame) : Nest :=
  let k := (sysExecute n.kernel command frame).1
  { kernel := k, stack := k.pidCounter :: n.stack, fresh := true }

/-- The nest after a `sys_halt` by the running process. -/
def halt (n : Nest) (status : UInt8) (frame : Frame) : Nest :=
  { kernel := (sysHalt n.kernel status frame).1, stack := n.stack.tail, fresh := false }

end Nest

/-- A successful `sys_execute`, or a `sys_halt` by a process that has a parent. -/
inductive NestStep : Nest → NestEvent → Nest → Prop
  | execute {n : Nest} {command : Option (List UInt8)} {frame : Frame} {eip : Int}
      (h : (sysExecute n.kernel command frame).2 = .launched eip) :
      NestStep n (.execute command frame) (n.execute command frame)
  | halt {n : Nest} {status : UInt8} {frame : Frame} (h : n.stack.tail ≠ []) :
      NestStep n (.halt status frame) (n.halt status frame)

/-- The kernel agrees with the nest; `others` are the processes of the other terminals. -/
structure Nested (others : Finset (Fin 6)) (n : Nest) : Prop where
  running : n.stack.head? = some n.kernel.pidCounter
  userPage : userBase n.kernel.paging = userFrame n.kernel.pidCounter
  esp0 : n.kernel.tss.esp0 = kernelStack n.kernel.pidCounter.val
  inUse : ∀ p, n.kernel.inUse p = true ↔ p ∈ n.stack ∨ p ∈ others

/-- A halting process has executed nothing itself, and is not one of those `sys_halt` replaces by a new shell. -/
def HaltsChild (n : Nest) : NestEvent → Prop
  | .execute _ _ => True
  | .halt _ _ => n.fresh = true ∧ ¬(0 < n.kernel.pidCounter.val ∧ n.kernel.pidCounter.val < 3)

/-- What `prev_pid` says about the nest: the parent of a fresh process, or else the running process itself. -/
structure NestInv (others : Finset (Fin 6)) (n : Nest) : Prop where
  nodup : n.stack.Nodup
  disjoint : ∀ p ∈ n.stack, p ∉ others
  parent : n.fresh = true → n.stack.tail.head? = some n.kernel.prevPid
  self : n.fresh = false → n.stack.tail = [] ∨ n.kernel.prevPid = n.kernel.pidCounter

/-! ### One step -/

section Step

variable {others : Finset (Fin 6)} {n : Nest}

/-- A launch pushes the new process. -/
private theorem Launched.nested {frame : Frame} {k' : Kernel} (hn : Nested others n) (h : Launched n.kernel frame k') :
    Nested others { kernel := k', stack := k'.pidCounter :: n.stack, fresh := true } where
  running := rfl
  userPage := by
    rw [h.paging]
    exact userBase_updateUserAddr _ _
  esp0 := by rw [h.tss]
  inUse p := by
    by_cases hp : p = k'.pidCounter
    · subst hp; simp [h.inUse]
    · have hsame : k'.inUse p = n.kernel.inUse p := by rw [Kernel.inUse, h.pcb p hp, Kernel.inUse]
      simp [hsame, hn.inUse p, hp]

private theorem Launched.nestInv {frame : Frame} {k' : Kernel} (hn : Nested others n) (hi : NestInv others n)
    (h : Launched n.kernel frame k') :
    NestInv others { kernel := k', stack := k'.pidCounter :: n.stack, fresh := true } := by
  have hfree := (getFreePcb_eq_some h.free).1
  have hnew : ¬(k'.pidCounter ∈ n.stack ∨ k'.pidCounter ∈ others) := by
    rw [← hn.inUse, hfree]; simp
  exact
    { nodup := List.nodup_cons.2 ⟨fun hmem => hnew (.inl hmem), hi.nodup⟩
      disjoint := by
        intro p hp
        rcases List.mem_cons.1 hp with rfl | hp
        · exact fun hmem => hnew (.inr hmem)
        · exact hi.disjoint p hp
      parent := fun _ => by rw [h.prevPid]; exact hn.running
      self := fun hfalse => by cases hfalse }

/-- Halting process 1 or 2 resumes nobody: it or a process with a new PCB runs afterwards. -/
private theorem sysHalt_base_pidCounter {k : Kernel} (h : 0 < k.pidCounter.val ∧ k.pidCounter.val < 3) (status : UInt8)
    (frame : Frame) :
    (sysHalt k status frame).1.pidCounter = k.pidCounter ∨
      k.inUse (sysHalt k status frame).1.pidCounter = false := by
  have hrel := released_spec k
  -- a PCB that is free after the release is that of the halting process or was free before
  have hnew : ∀ p, getFreePcb (released k) = some p → p = k.pidCounter ∨ k.inUse p = false := by
    intro p hp
    have hfree := (getFreePcb_eq_some hp).1
    by_cases hpid : p = k.pidCounter
    · exact .inl hpid
    · rw [hrel.inUse, Function.update_of_ne hpid] at hfree
      exact .inr hfree
  have hend := sysHalt_ended k status frame
  generalize (sysHalt k status frame).1 = k', (sysHalt k status frame).2 = res at hend ⊢
  cases hend with
  | other hnot => exact absurd h hnot
  | failed _ hfail hreturn => exact .inl (hreturn.pidCounter.trans (hfail.prevPid.trans hrel.pidCounter))
  | relaunched _ hlaunch => exact hnew _ hlaunch.free
  | faulted _ hfault => exact hnew _ hfault.free

/-- The stack of a nest in which a process with a parent halts. -/
private theorem Nested.stack_eq (hn : Nested others n) (h : n.stack.tail ≠ []) :
    ∃ q rest, n.stack = n.kernel.pidCounter :: q :: rest := by
  have hrunning := hn.running
  rcases hstack : n.stack with _ | ⟨p, _ | ⟨q, rest⟩⟩
  · simp [hstack] at h
  · simp [hstack] at h
  · rw [hstack] at hrunning
    exact ⟨q, rest, by rw [Option.some.inj hrunning]⟩

/-- The parent runs after a halt only if the halting process was fresh and not 1 or 2. -/
private theorem haltsChild_of_nested (hn : Nested others n) (hi : NestInv others n) (h : n.stack.tail ≠ [])
    (status : UInt8) (frame : Frame) (hm : Nested others (n.halt status frame)) :
    HaltsChild n (.halt status frame) := by
  obtain ⟨q, rest, hstack⟩ := hn.stack_eq h
  have hq : (sysHalt n.kernel status frame).1.pidCounter = q := by
    have hrunning := hm.running
    simp only [Nest.halt, hstack, List.tail_cons, List.head?_cons] at hrunning
    exact (Option.some.inj hrunning).symm
  have hne : q ≠ n.kernel.pidCounter := by
    rintro rfl
    have := hi.nodup
    simp [hstack] at this
  have hused : n.kernel.inUse q = true := (hn.inUse q).2 (.inl (by simp [hstack]))
  have hbase : ¬(0 < n.kernel.pidCounter.val ∧ n.kernel.pidCounter.val < 3) := by
    intro hbase
    rcases sysHalt_base_pidCounter hbase status frame with hself | hfree
    · exact hne (hq.symm.trans hself)
    · rw [hq, hused] at hfree
      cases hfree
  refine ⟨?_, hbase⟩
  rw [sysHalt_of_other hbase, (haltReturn_spec _ _).pidCounter, (released_spec _).prevPid] at hq
  by_contra hfresh
  rcases hi.self (by simpa using hfresh) with hnil | hself
  · exact h hnil
  · exact hne (hq.symm.trans hself)

/-- The halt of a fresh process other than 1 and 2 brings its parent back. -/
private theorem nested_of_haltsChild (hn : Nested others n) (hi : NestInv others n) (h : n.stack.tail ≠ [])
    (status : UInt8) (frame : Frame) (hc : HaltsChild n (.halt status frame)) :
    Nested others (n.halt status frame) := by
  obtain ⟨q, rest, hstack⟩ := hn.stack_eq h
  have hrel := released_spec n.kernel
  have hret := haltReturn_spec (released n.kernel) status
  have hq : n.kernel.prevPid = q := by
    have hparent := hi.parent hc.1
    simp only [hstack, List.tail_cons, List.head?_cons] at hparent
    exact (Option.some.inj hparent).symm
  have hpid : (haltReturn (released n.kernel) status).1.pidCounter = q := by rw [hret.pidCounter, hrel.prevPid, hq]
  unfold Nest.halt
  rw [sysHalt_of_other hc.2]
  exact
    { running := by simp [hstack, hpid]
      userPage := by
        rw [hpid, hret.paging, hrel.prevPid, hq]
        exact userBase_updateUserAddr _ _
      esp0 := by rw [hpid, hret.tss, hrel.prevPid, hq]
      inUse := by
        intro p
        have hp : (haltReturn (released n.kernel) status).1.inUse p =
            Function.update n.kernel.inUse n.kernel.pidCounter false p := by
          rw [Kernel.inUse, hret.pcbs, ← hrel.inUse, Kernel.inUse]
        have hbefore := hn.inUse p
        rw [hstack] at hbefore ⊢
        dsimp only
        rw [hp]
        by_cases hpid : p = n.kernel.pidCounter
        · have hnodup := hi.nodup
          have hothers := hi.disjoint p (by simp [hstack, hpid])
          rw [hstack] at hnodup
          subst hpid
          simpa [hothers] using (List.nodup_cons.1 hnodup).1
        · rw [Function.update_of_ne hpid, hbefore]
          simp [hpid] }

private theorem nestInv_of_haltsChild (hi : NestInv others n) (status : UInt8) (frame : Frame)
    (hc : HaltsChild n (.halt status frame)) : NestInv others (n.halt status frame) where
  nodup := hi.nodup.sublist (List.tail_sublist _)
  disjoint p hp := hi.disjoint p (List.mem_of_mem_tail hp)
  parent hfalse := by cases hfalse
  self _ := by
    right
    have hret := haltReturn_spec (released n.kernel) status
    unfold Nest.halt
    rw [sysHalt_of_other hc.2]
    exact hret.prevPid.trans hret.pidCounter.symm

end Step

/-! ### Runs -/

/-- Halt returns to the parent.  From a running base shell, along every run of executes and halts in which each
halting process is fresh and not 1 or 2, the kernel agrees with the nest; and from there a step keeps the agreement
exactly when it meets that condition too. -/
theorem halt_returns_to_parent_iff {others : Finset (Fin 6)} {k : Kernel} {events : List NestEvent} {n : Nest}
    (hstart : Nested others ⟨k, [k.pidCounter], false⟩) (hbase : k.pidCounter ∉ others)
    (hrun : Run (Guarded HaltsChild NestStep) ⟨k, [k.pidCounter], false⟩ events n) :
    Nested others n ∧ ∀ e m, NestStep n e m → (Nested others m ↔ HaltsChild n e) := by
  refine Run.guarded_exact (I := NestInv others) ?_ ?_ hrun ?_ hstart
  · intro n e m hi hn hc hstep
    cases hstep with
    | execute h => exact (sysExecute_launched h).nestInv hn hi
    | halt => exact nestInv_of_haltsChild hi _ _ hc
  · intro n e m hi hn hstep
    cases hstep with
    | execute h => exact ⟨fun _ => trivial, fun _ => (sysExecute_launched h).nested hn⟩
    | halt h => exact ⟨haltsChild_of_nested hn hi h _ _, nested_of_haltsChild hn hi h _ _⟩
  · exact
      { nodup := by simp
        disjoint := by simpa using hbase
        parent := fun hfalse => by cases hfalse
        self := fun _ => .inl rfl }

/-! ### Shells that execute shells -/

/-- The third base shell of the machine with one program. -/
def baseNest : Nest := { kernel := threeShells, stack := [threeShells.pidCounter], fresh := false }

private def executeShell : NestEvent := .execute (some (asBytes "shell")) frame₀
private def haltShell : NestEvent := .halt 0 frame₀

/-- The nest after the base shell has executed a shell, and after that one has executed another. -/
private def childNest : Nest := baseNest.execute (some (asBytes "shell")) frame₀
private def grandchildNest : Nest := childNest.execute (some (asBytes "shell")) frame₀

private theorem baseNest_nested : Nested {0, 1} baseNest where
  running := rfl
  userPage := by decide +kernel
  esp0 := by decide +kernel
  inUse := by decide +kernel

private theorem childNest_step : NestStep baseNest executeShell childNest := by
  have h : (sysExecute baseNest.kernel (some (asBytes "shell")) frame₀).2 = .launched 0x8048000 := by decide +kernel
  exact .execute h

private theorem grandchildNest_step : NestStep childNest executeShell grandchildNest := by
  have h : (sysExecute childNest.kernel (some (asBytes "shell")) frame₀).2 = .launched 0x8048000 := by decide +kernel
  exact .execute h

/-- A child of the base shell halts, and the shell goes on. -/
theorem halt_returns_to_baseNest :
    Nested {0, 1} (childNest.halt 0 frame₀) ∧
      ∀ e m, NestStep (childNest.halt 0 frame₀) e m → (Nested {0, 1} m ↔ HaltsChild (childNest.halt 0 frame₀) e) := by
  have hchild : HaltsChild childNest haltShell := by
    refine ⟨rfl, ?_⟩
    decide +kernel
  have hrun : Run (Guarded HaltsChild NestStep) baseNest ([] ++ [executeShell] ++ [haltShell])
      (childNest.halt 0 frame₀) :=
    .snoc (.snoc (.nil _) ⟨trivial, childNest_step⟩) ⟨hchild, .halt (by decide +kernel)⟩
  exact halt_returns_to_parent_iff baseNest_nested (by decide +kernel) hrun

/-- With one more shell in between, the second halt resumes the halting process instead of its parent: process 3
runs on with its PCB free. -/
theorem halt_resumes_itself :
    let n := (grandchildNest.halt 0 frame₀).halt 0 frame₀
    Nested {0, 1} baseNest ∧ Run NestStep baseNest [executeShell, executeShell, haltShell, haltShell] n ∧
      n.stack = [2] ∧ n.kernel.pidCounter = 3 ∧ n.kernel.inUse 3 = false ∧ ¬Nested {0, 1} n := by
  intro n
  have hrun : Run NestStep baseNest ([] ++ [executeShell] ++ [executeShell] ++ [haltShell] ++ [haltShell]) n :=
    .snoc (.snoc (.snoc (.snoc (.nil _) childNest_step) grandchildNest_step) (.halt (by decide +kernel)))
      (.halt (by decide +kernel))
  have hstack : n.stack = [2] := by decide +kernel
  have hpid : n.kernel.pidCounter = 3 := by decide +kernel
  refine ⟨baseNest_nested, hrun, hstack, hpid, by decide +kernel, ?_⟩
  intro hn
  have hrunning := hn.running
  rw [hstack, hpid] at hrunning
  exact absurd (Option.some.inj hrunning) (by decide)

end BigChungOS
