import BigChungOS.Lib.Runs
import BigChungOS.Lib.Stacks
import BigChungOS.Timer

/-!
# The process stacks of the terminals

`procs[1..curr_process]` of a terminal is the stack of the processes launched on it.  The three stacks should share
out the PCBs in use, and stay inside their arrays (`ProcessStacks`).

`sys_execute` pushes the new process on the terminal that is current at that moment, and `sys_halt` pops whatever is
on top of the terminal that is current at that moment.  When process 1 or 2 halts, the new shell is pushed and nothing
is popped.  After boot, an event keeps the stacks right exactly when a halting process is on top of the current
terminal and is neither 1 nor 2 (`process_stacks_iff`).
-/

namespace BigChungOS

open Transition

/-- The pids in `procs[1..curr_process]`, the last one on top. -/
def TerminalT.pids (t : TerminalT) : List Int :=
  (List.range t.currProcess.toNat).map fun i : Nat => t.procs (i + 1)

/-- The pids of the processes in use. -/
def Kernel.usedPids (k : Kernel) : Set Int := {x | ∃ p : Fin 6, x = p.val ∧ k.inUse p = true}

/-- The process stacks of the terminals are in bounds and share out the processes in use. -/
structure ProcessStacks (k : Kernel) : Prop where
  inBounds : ∀ t, 0 ≤ (k.terminals t).currProcess ∧ (k.terminals t).currProcess ≤ 5
  partition : Stacks.Partition (fun t => (k.terminals t).pids) k.usedPids

/-! ### Push and pop -/

private theorem TerminalT.pids_push (t : TerminalT) (p : Fin 6) (h : 0 ≤ t.currProcess) (hroom : t.currProcess ≠ 5) :
    (t.push p).pids = t.pids ++ [(p.val : Int)] := by
  rw [t.push_eq p hroom]
  have hlen : (t.currProcess + 1).toNat = t.currProcess.toNat + 1 := by omega
  have htop : ((t.currProcess.toNat : Int) + 1) = t.currProcess + 1 := by omega
  simp only [TerminalT.pids, hlen, List.range_succ, List.map_append, List.map_cons, List.map_nil, htop,
    Function.update_self]
  congr 1
  apply List.map_congr_left
  intro i hi
  have hlt := List.mem_range.1 hi
  rw [Function.update_of_ne (by omega)]

private theorem TerminalT.pids_pop (t : TerminalT) (h : 1 ≤ t.currProcess) (hlast : t.currProcess ≤ 5) :
    t.pids = t.pop.pids ++ [t.top] := by
  rw [t.pop_eq (by omega), t.top_eq (by omega)]
  have hlen : t.currProcess.toNat = (t.currProcess - 1).toNat + 1 := by omega
  have htop : (((t.currProcess - 1).toNat : Int) + 1) = t.currProcess := by omega
  simp only [TerminalT.pids]
  rw [hlen, List.range_succ, List.map_append, List.map_singleton, htop]
  congr 1
  apply List.map_congr_left
  intro i hi
  have hlt := List.mem_range.1 hi
  rw [Function.update_of_ne (by omega)]

private theorem TerminalT.pids_length (t : TerminalT) (h : 0 ≤ t.currProcess) :
    (t.pids.length : Int) = t.currProcess := by
  simp [TerminalT.pids, h]

private theorem usedPids_congr {k k' : Kernel} (h : ∀ p, k'.inUse p = k.inUse p) : k'.usedPids = k.usedPids := by
  simp only [Kernel.usedPids, h]

private theorem mem_usedPids {k : Kernel} {p : Fin 6} : (p.val : Int) ∈ k.usedPids ↔ k.inUse p = true := by
  constructor
  · rintro ⟨q, hq, hused⟩
    have hpq : p = q := Fin.ext (by omega)
    rw [hpq]
    exact hused
  · intro h
    exact ⟨p, rfl, h⟩

/-- The processes in use after process `p` has taken its PCB. -/
private theorem usedPids_insert {k k' : Kernel} {p : Fin 6} (hp : k'.inUse p = true)
    (h : ∀ q ≠ p, k'.inUse q = k.inUse q) : k'.usedPids = insert (p.val : Int) k.usedPids := by
  ext x
  constructor
  · rintro ⟨q, rfl, hq⟩
    by_cases hqp : q = p
    · exact .inl (by rw [hqp])
    · exact .inr (mem_usedPids.2 ((h q hqp).symm.trans hq))
  · rintro (rfl | ⟨q, rfl, hq⟩)
    · exact mem_usedPids.2 hp
    · by_cases hqp : q = p
      · exact mem_usedPids.2 (hqp ▸ hp)
      · exact mem_usedPids.2 ((h q hqp).trans hq)

/-- The processes in use after process `p` has given its PCB back. -/
private theorem usedPids_remove {k k' : Kernel} {p : Fin 6} (h : k'.inUse = Function.update k.inUse p false) :
    k'.usedPids = k.usedPids \ {(p.val : Int)} := by
  ext x
  constructor
  · rintro ⟨q, rfl, hq⟩
    rw [h] at hq
    by_cases hqp : q = p
    · subst hqp; simp at hq
    · rw [Function.update_of_ne hqp] at hq
      refine ⟨mem_usedPids.2 hq, ?_⟩
      intro hval
      exact hqp (Fin.ext (by simpa using hval))
  · rintro ⟨⟨q, rfl, hq⟩, hne⟩
    have hqp : q ≠ p := by rintro rfl; exact hne rfl
    exact mem_usedPids.2 (by rw [h, Function.update_of_ne hqp]; exact hq)

/-! ### Events -/

inductive StackEvent
  | execute (command : Option (List UInt8)) (frame : Frame)
  | halt (status : UInt8) (frame : Frame)
  | switch (targetTerminal : Nat)
  | tick (frame execFrame : Frame)

/-- The state after an event. -/
def stackStep (k : Kernel) : StackEvent → Kernel
  | .execute command frame => (sysExecute k command frame).1
  | .halt status frame => (sysHalt k status frame).1
  | .switch targetTerminal => switchTerminalKeypress k targetTerminal
  | .tick frame execFrame => (pitHandler k frame execFrame).1

/-- A halting process is on top of the current terminal and is not replaced by a new shell; a program that is
executed fits in its page. -/
def HaltsTop (k : Kernel) : StackEvent → Prop
  | .execute command _ => getFreePcb k = none ∨ execOutcome k.fs command ≠ .faulted
  | .halt _ _ => ¬(0 < k.pidCounter.val ∧ k.pidCounter.val < 3) ∧ 1 ≤ k.curr.currProcess ∧ k.curr.top = k.pidCounter.val
  | .switch _ | .tick _ _ => True

/-- What lasts from boot on: the base shells 1 and 2 stay on their terminals, the shell can be launched, and the boot
ticks are over. -/
structure Booted (k : Kernel) : Prop where
  base1 : (1 : Int) ∈ (k.terminals 1).pids
  base2 : (2 : Int) ∈ (k.terminals 2).pids
  shell : ∃ eip, execOutcome k.fs (some (asBytes "shell")) = .launched eip
  pitCount : 3 ≤ k.pitCount

section Step

variable {k k' : Kernel}

/-- The stacks, the PCBs in use and the files of `k'` are those of `k`. -/
structure SameStacks (k k' : Kernel) : Prop where
  fs : k'.fs = k.fs
  inUse : k'.inUse = k.inUse
  inBounds : ∀ t, (k'.terminals t).currProcess = (k.terminals t).currProcess
  pids : ∀ t, (k'.terminals t).pids = (k.terminals t).pids

private theorem SameProcesses.sameStacks (h : SameProcesses k k') : SameStacks k k' where
  fs := h.fs
  inUse := h.inUse
  inBounds := h.currProcess
  pids t := by rw [TerminalT.pids, h.procs, h.currProcess, TerminalT.pids]

private theorem Failed.sameStacks (h : Failed k k') : SameStacks k k' where
  fs := h.fs
  inUse := funext h.inUse
  inBounds t := by rw [h.terminals]
  pids t := by rw [h.terminals]

private theorem SameStacks.processStacks (h : SameStacks k k') (hs : ProcessStacks k) : ProcessStacks k' where
  inBounds t := by rw [h.inBounds]; exact hs.inBounds t
  partition := by
    have hpids : (fun t => (k'.terminals t).pids) = fun t => (k.terminals t).pids := funext h.pids
    rw [hpids, usedPids_congr fun p => congrFun h.inUse p]
    exact hs.partition

private theorem SameStacks.booted (h : SameStacks k k') (hb : Booted k) (hcount : 3 ≤ k'.pitCount) : Booted k' where
  base1 := by rw [h.pids]; exact hb.base1
  base2 := by rw [h.pids]; exact hb.base2
  shell := by rw [h.fs]; exact hb.shell
  pitCount := hcount

/-- The stacks after a push on the current terminal. -/
private theorem pids_update_push (hs : ProcessStacks k) (p : Fin 6) (hroom : k.curr.currProcess ≠ 5)
    (h : k'.terminals = Function.update k.terminals k.currTerminal (k.curr.push p)) :
    (fun t => (k'.terminals t).pids) =
      Function.update (fun t => (k.terminals t).pids) k.currTerminal
        ((k.terminals k.currTerminal).pids ++ [(p.val : Int)]) := by
  funext t
  by_cases ht : t = k.currTerminal
  · subst ht
    rw [h, Function.update_self, Function.update_self, Kernel.curr, TerminalT.pids_push _ _ (hs.inBounds _).1 hroom]
  · simp [h, ht]

/-- No stack holds more than five processes: two of the terminals keep a base shell, and no stack holds them both. -/
private theorem stack_length_le {stack : Fin 3 → List Int} {used : Set Int} (hp : Stacks.Partition stack used)
    (hused : ∀ x ∈ used, ∃ p : Fin 6, x = p.val) (h1 : (1 : Int) ∈ stack 1) (h2 : (2 : Int) ∈ stack 2) (t : Fin 3) :
    (stack t).length ≤ 5 := by
  have hmiss : ∃ b : Int, (b = 1 ∨ b = 2) ∧ b ∉ stack t := by
    by_cases ht : t = 1
    · exact ⟨2, .inr rfl, fun hmem => absurd (ht.symm.trans (hp.disjoint t 2 2 hmem h2)) (by decide)⟩
    · exact ⟨1, .inl rfl, fun hmem => ht (hp.disjoint t 1 1 hmem h1)⟩
  obtain ⟨b, hb, hnot⟩ := hmiss
  have hsub : ∀ x ∈ stack t, x ∈ ([0, 1, 2, 3, 4, 5] : List Int).erase b := by
    intro x hx
    obtain ⟨p, rfl⟩ := hused x ((hp.mem_used x).2 ⟨t, hx⟩)
    have hne : (p.val : Int) ≠ b := fun heq => hnot (heq ▸ hx)
    rw [List.mem_erase_of_ne hne]
    fin_cases p <;> simp
  have hle := ((hp.nodup t).subperm hsub).length_le
  rcases hb with rfl | rfl <;> exact hle

/-- As long as a PCB is free, there is room on every terminal. -/
theorem ProcessStacks.room (hs : ProcessStacks k) (hb : Booted k) {p : Fin 6} (hfree : k.inUse p = false) (t : Fin 3) :
    (k.terminals t).currProcess ≤ 4 := by
  have hnew : (p.val : Int) ∉ k.usedPids := by
    rw [mem_usedPids, hfree]
    simp
  have hpart := hs.partition.push (t := t) hnew
  have hmono : ∀ u, ∀ x ∈ (k.terminals u).pids, x ∈ Function.update (fun t => (k.terminals t).pids) t
      ((k.terminals t).pids ++ [(p.val : Int)]) u := by
    intro u x hx
    by_cases hu : u = t
    · subst hu
      rw [Function.update_self]
      exact List.mem_append_left _ hx
    · rwa [Function.update_of_ne hu]
  have hused : ∀ x ∈ insert (p.val : Int) k.usedPids, ∃ q : Fin 6, x = q.val := by
    rintro x (rfl | ⟨q, rfl, -⟩)
    · exact ⟨p, rfl⟩
    · exact ⟨q, rfl⟩
  have hlen := stack_length_le hpart hused (hmono 1 1 hb.base1) (hmono 2 2 hb.base2) t
  have hcurr := (k.terminals t).pids_length (hs.inBounds t).1
  rw [Function.update_self, List.length_append, List.length_singleton] at hlen
  omega

/-- A launched process is new on top of the current terminal. -/
private theorem Launched.processStacks {frame : Frame} (hs : ProcessStacks k) (hb : Booted k)
    (h : Launched k frame k') : ProcessStacks k' ∧ Booted k' := by
  have hfree := (getFreePcb_eq_some h.free).1
  have hroom : k.curr.currProcess ≤ 4 := hs.room hb hfree k.currTerminal
  have hpids := pids_update_push hs k'.pidCounter (by omega) h.terminals
  have hother : ∀ q ≠ k'.pidCounter, k'.inUse q = k.inUse q := by
    intro q hq
    rw [Kernel.inUse, h.pcb q hq, Kernel.inUse]
  have hpart : Stacks.Partition (fun t => (k'.terminals t).pids) k'.usedPids := by
    rw [hpids, usedPids_insert h.inUse hother]
    refine hs.partition.push ?_
    rw [mem_usedPids, hfree]
    simp
  have hmono : ∀ t x, x ∈ (k.terminals t).pids → x ∈ (k'.terminals t).pids := by
    intro t x hx
    rw [congrFun hpids t]
    by_cases ht : t = k.currTerminal
    · subst ht; simp [hx]
    · simpa [ht] using hx
  have h1 := hmono 1 1 hb.base1
  have h2 := hmono 2 2 hb.base2
  refine ⟨⟨?_, hpart⟩, ?_⟩
  · intro t
    have ht := hs.inBounds t
    rw [h.terminals]
    by_cases hcurr : t = k.currTerminal
    · subst hcurr
      rw [Function.update_self, k.curr.push_eq _ (by omega)]
      rw [Kernel.curr] at hroom ⊢
      dsimp only
      omega
    · simpa [hcurr] using ht
  · exact { base1 := h1, base2 := h2, shell := by rw [h.fs]; exact hb.shell, pitCount := h.pitCount ▸ hb.pitCount }

/-- A process that faults in `sys_execute` has a PCB but is on no terminal. -/
private theorem Faulted.not_processStacks (hs : ProcessStacks k) (h : Faulted k k') : ¬ProcessStacks k' := by
  intro hs'
  have hfree := (getFreePcb_eq_some h.free).1
  have hother : ∀ q ≠ k'.pidCounter, k'.inUse q = k.inUse q := by
    intro q hq
    rw [Kernel.inUse, h.pcb q hq, Kernel.inUse]
  have hpart := hs'.partition
  rw [h.terminals, usedPids_insert h.inUse hother] at hpart
  refine hs.partition.not_insert ?_ hpart
  rw [mem_usedPids, hfree]
  simp

/-- Taking the running process out of use and popping the current terminal is right when that process is on top. -/
private theorem processStacks_pop_iff (hs : ProcessStacks k)
    (hterminals : k'.terminals = Function.update k.terminals k.currTerminal k.curr.pop)
    (huse : k'.inUse = Function.update k.inUse k.pidCounter false) :
    ProcessStacks k' ↔ 1 ≤ k.curr.currProcess ∧ k.curr.top = k.pidCounter.val := by
  by_cases hpos : 1 ≤ k.curr.currProcess
  · have hlast : k.curr.currProcess ≤ 5 := (hs.inBounds k.currTerminal).2
    have hstack := k.curr.pids_pop hpos hlast
    have hpids : (fun t => (k'.terminals t).pids) =
        Function.update (fun t => (k.terminals t).pids) k.currTerminal k.curr.pop.pids := by
      funext t
      by_cases ht : t = k.currTerminal
      · subst ht; simp [hterminals]
      · simp [hterminals, ht]
    have hiff := hs.partition.pop_iff (a := (k.pidCounter.val : Int)) hstack
    rw [← hpids, ← usedPids_remove huse] at hiff
    have hbounds : ∀ t, 0 ≤ (k'.terminals t).currProcess ∧ (k'.terminals t).currProcess ≤ 5 := by
      intro t
      have ht := hs.inBounds t
      rw [hterminals]
      by_cases hcurr : t = k.currTerminal
      · subst hcurr
        rw [Function.update_self, k.curr.pop_eq (by omega)]
        rw [Kernel.curr] at hpos ⊢
        dsimp only
        omega
      · simpa [hcurr] using ht
    constructor
    · intro hs'
      exact ⟨hpos, (hiff.1 hs'.partition).symm⟩
    · rintro ⟨-, htop⟩
      exact ⟨hbounds, hiff.2 htop.symm⟩
  · constructor
    · intro hs'
      have hneg := (hs'.inBounds k.currTerminal).1
      rw [hterminals, Function.update_self, k.curr.pop_eq (by omega)] at hneg
      dsimp only at hneg
      omega
    · rintro ⟨hcurr, -⟩
      exact absurd hcurr hpos

/-- On a full stack a push of process 1 or 2 lands on `curr_process`, and what was on top is lost. -/
private theorem not_processStacks_of_full (hs : ProcessStacks k) (hfull : k.curr.currProcess = 5) {p : Fin 6}
    (hp : p.val ≤ 2) (hterminals : k'.terminals = Function.update k.terminals k.currTerminal (k.curr.push p))
    (hused : k'.usedPids = k.usedPids) : ¬ProcessStacks k' := by
  intro hs'
  have hpids : k.curr.pids = (List.range 5).map fun i : Nat => k.curr.procs (i + 1) := by
    rw [TerminalT.pids, hfull]
    rfl
  have htop : k.curr.procs 5 ∈ k.curr.pids := by
    rw [hpids]
    exact List.mem_map.2 ⟨4, by simp, rfl⟩
  have hlisted : k.curr.procs 5 ∈ k'.usedPids := by
    rw [hused]
    exact (hs.partition.mem_used _).2 ⟨k.currTerminal, htop⟩
  obtain ⟨t, ht⟩ := (hs'.partition.mem_used _).1 hlisted
  rw [hterminals] at ht
  by_cases hcurr : t = k.currTerminal
  · subst hcurr
    rw [Function.update_self, k.curr.push_full p hfull, TerminalT.pids] at ht
    obtain ⟨i, hi, heq⟩ := List.mem_map.1 ht
    have hlt : i < p.val := by simpa using hi
    have hnodup : k.curr.pids.Nodup := hs.partition.nodup k.currTerminal
    rw [hpids] at hnodup
    have hsame := List.inj_on_of_nodup_map hnodup (List.mem_range.2 (by omega : i < 5))
      (List.mem_range.2 (by decide : 4 < 5)) heq
    omega
  · rw [Function.update_of_ne hcurr] at ht
    exact hcurr (hs.partition.disjoint t k.currTerminal _ ht htop)

/-- Halting process 1 or 2 spoils the stacks: it stays on its terminal while a shell takes a PCB. -/
private theorem halt_base_not_processStacks (hs : ProcessStacks k) (hb : Booted k)
    (h : 0 < k.pidCounter.val ∧ k.pidCounter.val < 3) (status : UInt8) (frame : Frame) :
    ¬ProcessStacks (sysHalt k status frame).1 := by
  have hrel := released_spec k
  obtain ⟨eip, heip⟩ := hb.shell
  have hresult := sysExecute_released_result k (some (asBytes "shell")) frame
  rw [heip] at hresult
  have hlaunch := sysExecute_launched hresult
  have hhalt : (sysHalt k status frame).1 = (sysExecute (released k) (some (asBytes "shell")) frame).1 := by
    rw [sysHalt_of_base h]
    generalize sysExecute (released k) (some (asBytes "shell")) frame = r at hresult
    obtain ⟨k', res⟩ := r
    subst hresult
    rfl
  rw [hhalt]
  generalize (sysExecute (released k) (some (asBytes "shell")) frame).1 = k' at hlaunch
  intro hs'
  have hlisted : (k.pidCounter.val : Int) ∈ k.usedPids := by
    have hbase : k.pidCounter.val = 1 ∨ k.pidCounter.val = 2 := by omega
    rcases hbase with h1 | h2
    · rw [h1]; exact (hs.partition.mem_used 1).2 ⟨1, hb.base1⟩
    · rw [h2]; exact (hs.partition.mem_used 2).2 ⟨2, hb.base2⟩
  have hterminals : k'.terminals = Function.update k.terminals k.currTerminal (k.curr.push k'.pidCounter) := by
    rw [hlaunch.terminals, hrel.terminals, hrel.currTerminal, hrel.curr]
  have hother : ∀ q ≠ k'.pidCounter, k'.inUse q = (released k).inUse q := by
    intro q hq
    rw [Kernel.inUse, hlaunch.pcb q hq, Kernel.inUse]
  have hused : k'.usedPids = insert (k'.pidCounter.val : Int) (k.usedPids \ {(k.pidCounter.val : Int)}) := by
    rw [usedPids_insert hlaunch.inUse hother, usedPids_remove hrel.inUse]
  by_cases hfull : k.curr.currProcess = 5
  · -- all PCBs but the one given back are in use, so the shell gets that one
    have hpid : k'.pidCounter = k.pidCounter := by
      by_contra hne
      have hfree := (getFreePcb_eq_some hlaunch.free).1
      rw [hrel.inUse, Function.update_of_ne hne] at hfree
      have hroom : k.curr.currProcess ≤ 4 := hs.room hb hfree k.currTerminal
      omega
    rw [hpid, Set.insert_sdiff_singleton, Set.insert_eq_of_mem hlisted] at hused
    exact not_processStacks_of_full hs hfull (by omega) hterminals hused hs'
  · have hpart := hs'.partition
    rw [pids_update_push hs k'.pidCounter hfull hterminals, hused] at hpart
    exact hs.partition.not_repush hlisted hpart

/-- A process other than 1 and 2 that is on top of the current terminal comes off it. -/
private theorem halt_processStacks_iff (hs : ProcessStacks k) (hb : Booted k) (status : UInt8) (frame : Frame) :
    ProcessStacks (sysHalt k status frame).1 ↔ HaltsTop k (.halt status frame) := by
  by_cases hbase : 0 < k.pidCounter.val ∧ k.pidCounter.val < 3
  · constructor
    · intro hs'
      exact absurd hs' (halt_base_not_processStacks hs hb hbase status frame)
    · rintro ⟨hnot, -⟩
      exact absurd hbase hnot
  · have hrel := released_spec k
    have hret := haltReturn_spec (released k) status
    have hterminals : (haltReturn (released k) status).1.terminals =
        Function.update k.terminals k.currTerminal k.curr.pop := by
      rw [hret.terminals, hrel.terminals, hrel.currTerminal, hrel.curr]
    have huse : (haltReturn (released k) status).1.inUse = Function.update k.inUse k.pidCounter false := by
      rw [← hrel.inUse]
      funext p
      rw [Kernel.inUse, hret.pcbs, Kernel.inUse]
    rw [sysHalt_of_other hbase, processStacks_pop_iff hs hterminals huse]
    exact ⟨fun h => ⟨hbase, h⟩, fun h => h.2⟩

private theorem halt_booted (hs : ProcessStacks k) (hb : Booted k) {status : UInt8} {frame : Frame}
    (hc : HaltsTop k (.halt status frame)) : Booted (sysHalt k status frame).1 := by
  obtain ⟨hbase, hpos, htop⟩ := hc
  have hrel := released_spec k
  have hret := haltReturn_spec (released k) status
  obtain ⟨n, hn⟩ := hrel.fs
  -- the popped process is neither base shell
  have hkeep : ∀ t (b : Int), (b = 1 ∨ b = 2) → b ∈ (k.terminals t).pids →
      b ∈ ((haltReturn (released k) status).1.terminals t).pids := by
    intro t b hb' hmem
    rw [hret.terminals, hrel.terminals, hrel.currTerminal, hrel.curr, Kernel.curr]
    by_cases ht : t = k.currTerminal
    · subst ht
      have hstack := (k.terminals k.currTerminal).pids_pop hpos (hs.inBounds _).2
      rw [hstack, List.mem_append, List.mem_singleton] at hmem
      have hne : b ≠ (k.terminals k.currTerminal).top := by
        have htop' : (k.terminals k.currTerminal).top = k.pidCounter.val := htop
        rw [htop']
        omega
      simpa using hmem.resolve_right hne
    · simpa [ht] using hmem
  rw [sysHalt_of_other hbase]
  exact
    { base1 := hkeep 1 1 (.inl rfl) hb.base1
      base2 := hkeep 2 2 (.inr rfl) hb.base2
      shell := by rw [hret.fs, hn, execOutcome_currDir]; exact hb.shell
      pitCount := by rw [hret.pitCount, hrel.pitCount]; exact hb.pitCount }

/-- An execute keeps the stacks right unless the program faults. -/
private theorem execute_processStacks_iff (hs : ProcessStacks k) (hb : Booted k) (command : Option (List UInt8))
    (frame : Frame) :
    (ProcessStacks (sysExecute k command frame).1 ↔ HaltsTop k (.execute command frame)) ∧
      (HaltsTop k (.execute command frame) → Booted (sysExecute k command frame).1) := by
  have hresult := sysExecute_result k command frame
  cases hres : (sysExecute k command frame).2 with
  | error =>
    have hfail := sysExecute_failed hres
    have hc : HaltsTop k (.execute command frame) := by
      rw [hres] at hresult
      by_cases hfull : getFreePcb k = none
      · exact .inl hfull
      · rw [if_neg hfull] at hresult
        exact .inr (by rw [← hresult]; simp)
    have hs' := hfail.sameStacks.processStacks hs
    exact ⟨⟨fun _ => hc, fun _ => hs'⟩, fun _ => hfail.sameStacks.booted hb (hfail.pitCount ▸ hb.pitCount)⟩
  | launched eip =>
    have hlaunch := sysExecute_launched hres
    have hc : HaltsTop k (.execute command frame) := by
      rw [hres, if_neg (by rw [hlaunch.free]; simp)] at hresult
      exact .inr (by rw [← hresult]; simp)
    obtain ⟨hs', hb'⟩ := hlaunch.processStacks hs hb
    exact ⟨⟨fun _ => hc, fun _ => hs'⟩, fun _ => hb'⟩
  | faulted =>
    have hfault := sysExecute_faulted hres
    have hc : ¬HaltsTop k (.execute command frame) := by
      rw [hres, if_neg (by rw [hfault.free]; simp)] at hresult
      rintro (hfull | hnot)
      · rw [hfault.free] at hfull
        cases hfull
      · exact hnot hresult.symm
    exact ⟨⟨fun hs' => absurd hs' (hfault.not_processStacks hs), fun h => absurd h hc⟩, fun h => absurd h hc⟩

end Step

/-! ### Boot -/

/-- Timer ticks, each with the frame it saves and the frame of the `sys_execute` it may call. -/
def ticks (k : Kernel) (frames : List (Frame × Frame)) : Kernel :=
  frames.foldl (fun k f => (pitHandler k f.1 f.2).1) k

/-- The state after `n` of the three boot ticks: terminal `t` runs shell `t`, for each `t < n`. -/
structure BootedTo (n : Nat) (k : Kernel) : Prop where
  pitCount : k.pitCount = n
  shell : ∃ eip, execOutcome k.fs (some (asBytes "shell")) = .launched eip
  currProcess : ∀ t, (k.terminals t).currProcess = if t.val < n then 1 else 0
  procs : ∀ t : Fin 3, t.val < n → (k.terminals t).procs 1 = t.val
  inUse : ∀ p, k.inUse p = true ↔ p.val < n

private theorem entry_bootedTo {b : Boot} {eip : Int}
    (hshell : execOutcome (bootKernel b).fs (some (asBytes "shell")) = .launched eip) : BootedTo 0 (entry b) where
  pitCount := by
    simp only [entry, clear, startTerminals, bootKernel]
    rw [puts_eq]
    rfl
  shell := ⟨eip, hshell⟩
  currProcess _ := rfl
  procs _ h := by omega
  inUse p := by
    simp only [entry, clear, startTerminals, bootKernel, Kernel.inUse]
    rw [puts_eq]
    simp [zeroKernel]

/-- A boot tick launches the shell of the next terminal. -/
theorem BootedTo.tick {n : Nat} {k : Kernel} (h : BootedTo n k) (hn : n < 3) (frame execFrame : Frame) :
    BootedTo (n + 1) (pitHandler k frame execFrame).1 := by
  have hcount : k.pitCount < 3 := h.pitCount ▸ hn
  have hsame := pitBoot_sameProcesses k frame hcount
  obtain ⟨-, hcurr, hpit⟩ := pitBoot_fields k frame hcount
  obtain ⟨eip, heip⟩ := h.shell
  have hinUse : ∀ p, (pitBoot k frame hcount).inUse p = true ↔ p.val < n := by
    intro p
    rw [hsame.inUse, h.inUse]
  have hfree := getFreePcb_first (by omega) hinUse
  have hresult := sysExecute_result (pitBoot k frame hcount) (some (asBytes "shell")) execFrame
  rw [if_neg (by simp [hfree]), hsame.fs, heip] at hresult
  have hlaunch := sysExecute_launched hresult
  rw [pitHandler_early_launched hcount hresult]
  generalize (sysExecute (pitBoot k frame hcount) (some (asBytes "shell")) execFrame).1 = k' at hlaunch
  have hpid : k'.pidCounter.val = n := by
    have hpcb := Option.some.inj (hlaunch.free.symm.trans hfree)
    rw [hpcb]
  have hterminals : ∀ t : Fin 3, (t.val ≠ n → (k'.terminals t).currProcess = (k.terminals t).currProcess ∧
      (k'.terminals t).procs = (k.terminals t).procs) ∧
      (t.val = n → (k'.terminals t).currProcess = 1 ∧ (k'.terminals t).procs 1 = n) := by
    intro t
    have hcurr' : (pitBoot k frame hcount).currTerminal.val = n := by rw [hcurr]; exact h.pitCount
    have hidle := h.currProcess t
    rw [hlaunch.terminals]
    constructor
    · intro ht
      have hne : t ≠ (pitBoot k frame hcount).currTerminal := fun heq => ht (heq ▸ hcurr')
      rw [Function.update_of_ne hne]
      exact ⟨hsame.currProcess t, hsame.procs t⟩
    · intro ht
      have heq : t = (pitBoot k frame hcount).currTerminal := Fin.ext (ht.trans hcurr'.symm)
      rw [← hsame.currProcess, if_neg (by omega)] at hidle
      subst heq
      rw [Function.update_self, Kernel.curr, TerminalT.push_eq _ _ (by omega)]
      simp [hidle, hpid]
  refine
    { pitCount := by rw [hlaunch.pitCount, hpit, h.pitCount]
      shell := ⟨eip, by rw [hlaunch.fs, hsame.fs, heip]⟩
      currProcess := ?_
      procs := ?_
      inUse := ?_ }
  · intro t
    by_cases ht : t.val = n
    · rw [((hterminals t).2 ht).1, if_pos (by omega)]
    · rw [((hterminals t).1 ht).1, h.currProcess]
      have hiff : t.val < n + 1 ↔ t.val < n := by omega
      simp only [hiff]
  · intro t hlt
    by_cases ht : t.val = n
    · rw [((hterminals t).2 ht).2, ht]
    · rw [((hterminals t).1 ht).2]
      exact h.procs t (by omega)
  · intro p
    by_cases hp : p = k'.pidCounter
    · have hval : p.val = n := by rw [hp, hpid]
      subst hp
      simp [hlaunch.inUse, hval]
    · have hval : p.val ≠ n := fun heq => hp (Fin.ext (heq.trans hpid.symm))
      rw [Kernel.inUse, hlaunch.pcb p hp, ← Kernel.inUse, hsame.inUse, h.inUse]
      omega

private theorem ticks_bootedTo {n : Nat} {k : Kernel} (h : BootedTo n k) {frames : List (Frame × Frame)}
    (hlen : n + frames.length ≤ 3) : BootedTo (n + frames.length) (ticks k frames) := by
  induction frames generalizing n k with
  | nil => exact h
  | cons f frames ih =>
    simp only [List.length_cons] at hlen ⊢
    have htick := h.tick (by omega) f.1 f.2
    have hrest := ih htick (by omega)
    rw [show n + (frames.length + 1) = n + 1 + frames.length by omega]
    exact hrest

/-- After boot, each terminal's stack is its base shell. -/
theorem BootedTo.pids {k : Kernel} (h : BootedTo 3 k) (t : Fin 3) : (k.terminals t).pids = [(t.val : Int)] := by
  have hcurr := h.currProcess t
  rw [if_pos t.isLt] at hcurr
  simp [TerminalT.pids, hcurr, List.range_succ, h.procs t t.isLt]

private theorem BootedTo.booted {k : Kernel} (h : BootedTo 3 k) : Booted k where
  base1 := by simp [h.pids]
  base2 := by simp [h.pids]
  shell := h.shell
  pitCount := h.pitCount.ge

private theorem BootedTo.processStacks {k : Kernel} (h : BootedTo 3 k) : ProcessStacks k where
  inBounds t := by
    have hcurr := h.currProcess t
    rw [if_pos t.isLt] at hcurr
    omega
  partition :=
    { nodup := fun t => by simp [h.pids]
      disjoint := by
        intro t u a ht hu
        rw [h.pids, List.mem_singleton] at ht hu
        exact Fin.ext (by omega)
      mem_used := by
        intro a
        simp only [h.pids, List.mem_singleton]
        constructor
        · rintro ⟨p, rfl, hp⟩
          exact ⟨⟨p.val, (h.inUse p).1 hp⟩, rfl⟩
        · rintro ⟨t, rfl⟩
          exact ⟨⟨t.val, by omega⟩, rfl, (h.inUse _).2 t.isLt⟩ }

/-! ### Runs -/

/-- The stacks of the terminals.  After the three boot ticks, along every run of events in which each halting process
is on top of the current terminal and is neither 1 nor 2 (and no program faults while it is loaded), the stacks are
in bounds and share out the PCBs in use; and from there an event keeps this exactly when it meets the condition. -/
theorem process_stacks_iff {b : Boot} {eip : Int} {frames : List (Frame × Frame)} {events : List StackEvent}
    {k : Kernel} (hshell : execOutcome (bootKernel b).fs (some (asBytes "shell")) = .launched eip)
    (hframes : frames.length = 3)
    (hrun : Run (Guarded HaltsTop fun k e k' => stackStep k e = k') (ticks (entry b) frames) events k) :
    ProcessStacks k ∧ ∀ e, ProcessStacks (stackStep k e) ↔ HaltsTop k e := by
  have hboot : BootedTo 3 (ticks (entry b) frames) := by
    have hlen : 0 + frames.length ≤ 3 := by omega
    have hticks := ticks_bootedTo (entry_bootedTo hshell) hlen
    simpa [hframes] using hticks
  have hexact := Run.guarded_exact (I := Booted) (Q := ProcessStacks) ?_ ?_ hrun hboot.booted hboot.processStacks
  · exact ⟨hexact.1, fun e => hexact.2 e _ rfl⟩
  · rintro k e _ hb hs hc rfl
    cases e with
    | execute command frame => exact (execute_processStacks_iff hs hb command frame).2 hc
    | halt status frame => exact halt_booted hs hb hc
    | switch targetTerminal =>
      exact (switchTerminalKeypress_sameProcesses k targetTerminal).sameStacks.booted hb
        (switchTerminalKeypress_pitCount k targetTerminal ▸ hb.pitCount)
    | tick frame execFrame =>
      obtain ⟨hsame, hcount, -⟩ := pitHandler_late hb.pitCount frame execFrame
      exact hsame.sameStacks.booted hb hcount
  · rintro k e _ hb hs rfl
    cases e with
    | execute command frame => exact (execute_processStacks_iff hs hb command frame).1
    | halt status frame => exact halt_processStacks_iff hs hb status frame
    | switch targetTerminal =>
      exact ⟨fun _ => trivial,
        fun _ => (switchTerminalKeypress_sameProcesses k targetTerminal).sameStacks.processStacks hs⟩
    | tick frame execFrame =>
      obtain ⟨hsame, -, -⟩ := pitHandler_late hb.pitCount frame execFrame
      exact ⟨fun _ => trivial, fun _ => hsame.sameStacks.processStacks hs⟩

private def bootFrames : List (Frame × Frame) := List.replicate 3 (frame₀, frame₀)

private theorem shellBoot_shell :
    execOutcome (bootKernel shellBoot).fs (some (asBytes "shell")) = .launched 0x8048000 := by
  decide +kernel

private theorem ticks_bootFrames : ticks (entry shellBoot) bootFrames = threeShells := rfl

/-- The third shell executes a shell, which halts. -/
theorem process_stacks_after_child :
    let k := stackStep (stackStep threeShells (.execute (some (asBytes "shell")) frame₀)) (.halt 0 frame₀)
    ProcessStacks k ∧ ∀ e, ProcessStacks (stackStep k e) ↔ HaltsTop k e := by
  intro k
  have hlaunch : HaltsTop threeShells (.execute (some (asBytes "shell")) frame₀) := by
    right
    decide +kernel
  have hhalt : HaltsTop (stackStep threeShells (.execute (some (asBytes "shell")) frame₀)) (.halt 0 frame₀) := by
    unfold HaltsTop
    decide +kernel
  have hrun : Run (Guarded HaltsTop fun k e k' => stackStep k e = k') threeShells
      ([] ++ [.execute (some (asBytes "shell")) frame₀] ++ [.halt 0 frame₀]) k :=
    .snoc (t := stackStep threeShells (.execute (some (asBytes "shell")) frame₀))
      (.snoc (.nil _) ⟨hlaunch, rfl⟩) ⟨hhalt, rfl⟩
  rw [← ticks_bootFrames] at hrun
  exact process_stacks_iff shellBoot_shell rfl hrun

/-- The third base shell halts and is listed twice on its terminal; its fifth halt overwrites `curr_process`. -/
theorem halted_base_shell_listed_twice :
    let halt : StackEvent := .halt 0 frame₀
    let k := stackStep threeShells halt
    let k₅ := stackStep (stackStep (stackStep (stackStep k halt) halt) halt) halt
    Run (fun k e k' => stackStep k e = k') threeShells [halt] k ∧ (k.terminals 2).pids = [2, 2] ∧
      ¬ProcessStacks k ∧ (k₅.terminals 2).currProcess = 2 := by
  intro halt k k₅
  have htwice : (k.terminals 2).pids = [2, 2] := by decide +kernel
  have hover : (k₅.terminals 2).currProcess = 2 := by decide +kernel
  refine ⟨Run.single rfl, htwice, ?_, hover⟩
  intro hs
  have hnodup := hs.partition.nodup 2
  rw [htwice] at hnodup
  exact absurd hnodup (by decide)

end BigChungOS
