import BigChungOS.ExitStatus

/-!
# The base shells

Each of the first three ticks launches the base shell of a terminal, which is not to end: when it halts, `sys_halt`
launches another one in its place, while the halt of any other process resumes its parent.  `sys_halt` has nothing to
tell the two apart by but the process number: it takes 1 and 2 for base shells, and nothing else.

The numbers are handed out first-free, so a program executed between two ticks may get 1 or 2 and push a base shell up;
and the first base shell always is process 0.  A halt does the right thing exactly when the number fits the role of the
halting process and, if that is a program, `prev_pid` still names its parent (`base_shells_iff`).
-/

namespace BigChungOS

open Memory Transition

/-- The kernel with the base shell of each terminal, once it has been started, and the parent of each program. -/
structure Family where
  kernel : Kernel
  base : Fin 3 → Option (Fin 6)
  parent : Fin 6 → Option (Fin 6)

inductive ShellEvent
  | tick (frame execFrame : Frame)
  | execute (command : Option (List UInt8)) (frame : Frame)
  | halt (status : UInt8) (frame : Frame)

/-- The base shells after process `p` has halted: a shell that was relaunched takes the place of `p`. -/
def successor (base : Fin 3 → Option (Fin 6)) (p : Fin 6) : Kernel × HaltResult → Fin 3 → Option (Fin 6)
  | (k, .relaunched _) => fun t => if base t = some p then some k.pidCounter else base t
  | (_, .resumed _ _) | (_, .faulted) => base

/-- A boot tick, a `sys_execute` or a `sys_halt` of the running process.  A tick that launches a shell makes it the base
shell of its terminal, and a program that `sys_execute` starts is a child of the caller. -/
inductive ShellStep : Family → ShellEvent → Family → Prop
  | tick {k : Kernel} {base : Fin 3 → Option (Fin 6)} {parent : Fin 6 → Option (Fin 6)} {frame execFrame : Frame}
      {eip : Int} (h : k.pitCount < 3) (hres : (pitHandler k frame execFrame).2 = .launched eip) :
      ShellStep ⟨k, base, parent⟩ (.tick frame execFrame) ⟨(pitHandler k frame execFrame).1,
        Function.update base ⟨k.pitCount, h⟩ (some (pitHandler k frame execFrame).1.pidCounter),
        Function.update parent (pitHandler k frame execFrame).1.pidCounter none⟩
  | tickFails {k : Kernel} {base : Fin 3 → Option (Fin 6)} {parent : Fin 6 → Option (Fin 6)} {frame execFrame : Frame}
      (h : k.pitCount < 3) (hres : ∀ eip, (pitHandler k frame execFrame).2 ≠ .launched eip) :
      ShellStep ⟨k, base, parent⟩ (.tick frame execFrame) ⟨(pitHandler k frame execFrame).1, base, parent⟩
  | execute {k : Kernel} {base : Fin 3 → Option (Fin 6)} {parent : Fin 6 → Option (Fin 6)}
      {command : Option (List UInt8)} {frame : Frame} (hres : (sysExecute k command frame).2 ≠ .error) :
      ShellStep ⟨k, base, parent⟩ (.execute command frame) ⟨(sysExecute k command frame).1, base,
        Function.update parent (sysExecute k command frame).1.pidCounter (some k.pidCounter)⟩
  | executeFails {k : Kernel} {base : Fin 3 → Option (Fin 6)} {parent : Fin 6 → Option (Fin 6)}
      {command : Option (List UInt8)} {frame : Frame} (hres : (sysExecute k command frame).2 = .error) :
      ShellStep ⟨k, base, parent⟩ (.execute command frame) ⟨(sysExecute k command frame).1, base, parent⟩
  | halt {k : Kernel} {base : Fin 3 → Option (Fin 6)} {parent : Fin 6 → Option (Fin 6)} {status : UInt8}
      {frame : Frame} :
      ShellStep ⟨k, base, parent⟩ (.halt status frame)
        ⟨(sysHalt k status frame).1, successor base k.pidCounter (sysHalt k status frame), parent⟩

/-- The base shells that have been started are alive. -/
def BaseShellsLive (s : Family) : Prop := ∀ t p, s.base t = some p → s.kernel.inUse p = true

/-- The running process is a base shell. -/
def IsBase (s : Family) : Prop := ∃ t, s.base t = some s.kernel.pidCounter

/-- A halt goes on in the parent: with its number and its page, from the call that launched the halting process. -/
structure ResumesParent (s : Family) (r : Kernel × HaltResult) : Prop where
  parent : s.parent s.kernel.pidCounter = some r.1.pidCounter
  page : userBase r.1.paging = userFrame r.1.pidCounter
  call : ∃ eax, r.2 = .resumed (s.kernel.oldFrame s.kernel.pidCounter) eax

/-- The halt of a base shell relaunches a shell, and that of any other process resumes its parent. -/
def HaltsRight (s : Family) : ShellEvent → Prop
  | .halt status frame => ((∃ eip, (sysHalt s.kernel status frame).2 = .relaunched eip) ↔ IsBase s) ∧
      (¬IsBase s → ResumesParent s (sysHalt s.kernel status frame))
  | .tick _ _ | .execute _ _ => True

/-- The number of a halting process is 1 or 2 exactly if it is a base shell, and `prev_pid` names the parent of any
other. -/
def RoleFits (s : Family) : ShellEvent → Prop
  | .halt _ _ => ((0 < s.kernel.pidCounter.val ∧ s.kernel.pidCounter.val < 3) ↔ IsBase s) ∧
      (¬IsBase s → s.parent s.kernel.pidCounter = some s.kernel.prevPid)
  | .tick _ _ | .execute _ _ => True

/-- A base shell that has been started is one for good. -/
def Started (s t : Family) : Prop := ∀ u, (s.base u).isSome → (t.base u).isSome

/-- There is a shell to launch. -/
def HasShell (s : Family) : Prop := ∃ eip, execOutcome s.kernel.fs (some (asBytes "shell")) = .launched eip

section Step

variable {k k' : Kernel} {base : Fin 3 → Option (Fin 6)} {parent parent' : Fin 6 → Option (Fin 6)}

private theorem successor_of_relaunched {p : Fin 6} {r : Kernel × HaltResult} {eip : Int} (h : r.2 = .relaunched eip)
    (t : Fin 3) : successor base p r t = if base t = some p then some r.1.pidCounter else base t := by
  obtain ⟨k₁, res⟩ := r
  dsimp only at h
  subst h
  rfl

private theorem successor_of_resumed {p : Fin 6} {r : Kernel × HaltResult} {frame : Frame} {eax : Int}
    (h : r.2 = .resumed frame eax) : successor base p r = base := by
  obtain ⟨k₁, res⟩ := r
  dsimp only at h
  subst h
  rfl

private theorem hasShell_of_fs (h : HasShell ⟨k, base, parent⟩) {base' : Fin 3 → Option (Fin 6)}
    (hfs : ∃ n, k'.fs = { k.fs with currDir := n }) : HasShell ⟨k', base', parent'⟩ := by
  obtain ⟨n, hn⟩ := hfs
  obtain ⟨eip, heip⟩ := h
  refine ⟨eip, ?_⟩
  dsimp only at heip ⊢
  rw [hn, execOutcome_currDir]
  exact heip

theorem BaseShellsLive.keep (h : BaseShellsLive ⟨k, base, parent⟩) (hk : KeepsCalls k k') :
    BaseShellsLive ⟨k', base, parent'⟩ := fun t p hp => (hk.calls p (h t p hp)).1

/-- A tick that launches a shell leaves it in use. -/
private theorem pitHandler_launched {frame execFrame : Frame} {eip : Int}
    (hres : (pitHandler k frame execFrame).2 = .launched eip) :
    (pitHandler k frame execFrame).1.inUse (pitHandler k frame execFrame).1.pidCounter = true := by
  have hend := pitHandler_ended k frame execFrame
  rw [hres] at hend
  generalize (pitHandler k frame execFrame).1 = k₁ at hend ⊢
  cases hend with
  | launched _ hlaunch => exact (sysExecute_launched hlaunch).inUse

private theorem shellStep_hasShell {s t : Family} {e : ShellEvent} (h : HasShell s) (hstep : ShellStep s e t) :
    HasShell t := by
  cases hstep with
  | tick | tickFails => exact hasShell_of_fs h (pitHandler_keepsCalls _ _ _).fs
  | execute | executeFails => exact hasShell_of_fs h (sysExecute_keepsCalls _ _ _).fs
  | halt => exact hasShell_of_fs h (sysHalt_fs _ _ _)

/-- The halt of process 1 or 2 is right exactly when that is a base shell. -/
private theorem halt_relaunched_iff (h : HasShell ⟨k, base, parent⟩) (hlive : BaseShellsLive ⟨k, base, parent⟩)
    (hrange : 0 < k.pidCounter.val ∧ k.pidCounter.val < 3) (status : UInt8) (frame : Frame) :
    (HaltsRight ⟨k, base, parent⟩ (.halt status frame) ∧
        BaseShellsLive ⟨(sysHalt k status frame).1, successor base k.pidCounter (sysHalt k status frame), parent⟩) ↔
      IsBase ⟨k, base, parent⟩ := by
  obtain ⟨eip, hshell⟩ := h
  obtain ⟨hres, hlaunch⟩ := sysHalt_relaunches hshell hrange status frame
  constructor
  · rintro ⟨hright, -⟩
    exact hright.1.1 ⟨eip, hres⟩
  intro hbase
  refine ⟨⟨iff_of_true ⟨eip, hres⟩ hbase, fun hnot => absurd hbase hnot⟩, ?_⟩
  intro t p hp
  -- the shell that was relaunched is in use, and the halt leaves the other base shells alone
  have hsucc : successor base k.pidCounter (sysHalt k status frame) t =
      if base t = some k.pidCounter then some (sysHalt k status frame).1.pidCounter else base t :=
    successor_of_relaunched hres t
  dsimp only at hp ⊢
  rw [hsucc] at hp
  split at hp
  · rw [← Option.some.inj hp]
    exact hlaunch.inUse
  · next hother =>
    have hne : p ≠ k.pidCounter := by
      rintro rfl
      exact hother hp
    exact (sysHalt_callKept status frame hne (hlive t p hp)).1

/-- The halt of any other process is right exactly when it is a program and `prev_pid` names its parent. -/
private theorem halt_resumed_iff (hlive : BaseShellsLive ⟨k, base, parent⟩)
    (hrange : ¬(0 < k.pidCounter.val ∧ k.pidCounter.val < 3)) (status : UInt8) (frame : Frame) :
    (HaltsRight ⟨k, base, parent⟩ (.halt status frame) ∧
        BaseShellsLive ⟨(sysHalt k status frame).1, successor base k.pidCounter (sysHalt k status frame), parent⟩) ↔
      ¬IsBase ⟨k, base, parent⟩ ∧ parent k.pidCounter = some k.prevPid := by
  have hres := (sysHalt_resumes hrange status frame).1
  have hpid : (sysHalt k status frame).1.pidCounter = k.prevPid := by
    rw [sysHalt_of_other hrange, (haltReturn_spec _ _).pidCounter, (released_spec k).prevPid]
  have hpage : userBase (sysHalt k status frame).1.paging = userFrame k.prevPid := by
    rw [sysHalt_of_other hrange, (haltReturn_spec _ _).paging, (released_spec k).prevPid]
    exact userBase_updateUserAddr _ _
  -- no shell is relaunched, so the base shells stay who they are
  have hnot : ¬∃ eip, (sysHalt k status frame).2 = .relaunched eip := by
    rintro ⟨eip, heip⟩
    rw [hres] at heip
    cases heip
  have hsucc : successor base k.pidCounter (sysHalt k status frame) = base := successor_of_resumed hres
  constructor
  · rintro ⟨hright, -⟩
    have hbase : ¬IsBase ⟨k, base, parent⟩ := fun hbase => hnot (hright.1.2 hbase)
    refine ⟨hbase, ?_⟩
    rw [← hpid]
    exact (hright.2 hbase).parent
  · rintro ⟨hbase, hparent⟩
    refine ⟨⟨iff_of_false hnot hbase, fun _ => ⟨?_, ?_, _, hres⟩⟩, ?_⟩
    · rw [hpid]
      exact hparent
    · rw [hpid]
      exact hpage
    · intro t p hp
      rw [hsucc] at hp
      have hne : p ≠ k.pidCounter := by
        rintro rfl
        exact hbase ⟨t, hp⟩
      exact (sysHalt_callKept status frame hne (hlive t p hp)).1

private theorem shellStep_right_iff {s t : Family} {e : ShellEvent} (h : HasShell s) (hlive : BaseShellsLive s)
    (hstep : ShellStep s e t) : (HaltsRight s e ∧ BaseShellsLive t) ↔ RoleFits s e := by
  cases hstep with
  | @tick k base parent frame execFrame eip hcount hres =>
    refine iff_of_true ⟨trivial, ?_⟩ trivial
    intro u p hp
    dsimp only at hp ⊢
    by_cases hu : u = ⟨k.pitCount, hcount⟩
    · rw [hu, Function.update_self, Option.some.injEq] at hp
      rw [← hp]
      exact pitHandler_launched hres
    · rw [Function.update_of_ne hu] at hp
      exact ((pitHandler_keepsCalls k frame execFrame).calls p (hlive u p hp)).1
  | tickFails => exact iff_of_true ⟨trivial, hlive.keep (pitHandler_keepsCalls _ _ _)⟩ trivial
  | execute | executeFails => exact iff_of_true ⟨trivial, hlive.keep (sysExecute_keepsCalls _ _ _)⟩ trivial
  | @halt k base parent status frame =>
    -- the number alone decides what `sys_halt` does
    by_cases hrange : 0 < k.pidCounter.val ∧ k.pidCounter.val < 3
    · rw [halt_relaunched_iff h hlive hrange]
      exact ⟨fun hbase => ⟨iff_of_true hrange hbase, fun hnot => absurd hbase hnot⟩, fun hfits => hfits.1.1 hrange⟩
    · rw [halt_resumed_iff hlive hrange]
      constructor
      · rintro ⟨hbase, hparent⟩
        exact ⟨iff_of_false hrange hbase, fun _ => hparent⟩
      · rintro ⟨hrole, hparent⟩
        have hbase : ¬IsBase ⟨k, base, parent⟩ := fun hbase => hrange (hrole.2 hbase)
        exact ⟨hbase, hparent hbase⟩

/-- A base shell is replaced by its successor. -/
private theorem successor_isSome {p : Fin 6} {r : Kernel × HaltResult} {u : Fin 3} (h : (base u).isSome) :
    (successor base p r u).isSome := by
  obtain ⟨k₁, res⟩ := r
  cases res with
  | resumed | faulted => exact h
  | relaunched =>
    simp only [successor]
    split
    · rfl
    · exact h

private theorem shellStep_started {s t : Family} {e : ShellEvent} (hstep : ShellStep s e t) : Started s t := by
  intro u hu
  cases hstep with
  | tick hcount =>
    dsimp only at hu ⊢
    by_cases hself : u = ⟨_, hcount⟩
    · rw [hself, Function.update_self]
      rfl
    · rw [Function.update_of_ne hself]
      exact hu
  | tickFails | execute | executeFails => exact hu
  | halt => exact successor_isSome hu

end Step

/-! ### Runs -/

/-- The base shells are alive, and there is none if there is no shell to launch. -/
def FamilyOk (s : Family) : Prop := BaseShellsLive s ∧ (HasShell s ∨ ∀ t, s.base t = none)

/-- A halt whose number fits its role is right. -/
private theorem roleFits_right {s t : Family} {e : ShellEvent} (h : FamilyOk s) (hfits : RoleFits s e)
    (hstep : ShellStep s e t) : HaltsRight s e ∧ BaseShellsLive t := by
  by_cases hshell : HasShell s
  · exact (shellStep_right_iff hshell h.1 hstep).2 hfits
  -- without a shell no base shell has been started, and 1 and 2 do not fit a program
  have hnone : ∀ t, s.base t = none := h.2.resolve_left hshell
  cases hstep with
  | tick _ hres => exact absurd ⟨_, shell_of_tick hres⟩ hshell
  | tickFails => exact ⟨trivial, h.1.keep (pitHandler_keepsCalls _ _ _)⟩
  | execute | executeFails => exact ⟨trivial, h.1.keep (sysExecute_keepsCalls _ _ _)⟩
  | @halt k base parent status frame =>
    have hbase : ¬IsBase ⟨k, base, parent⟩ := by
      rintro ⟨t, ht⟩
      rw [hnone t] at ht
      cases ht
    have hrange : ¬(0 < k.pidCounter.val ∧ k.pidCounter.val < 3) := fun hrange => hbase (hfits.1.1 hrange)
    exact (halt_resumed_iff h.1 hrange status frame).2 ⟨hbase, hfits.2 hbase⟩

private theorem shellStep_ok {s t : Family} {e : ShellEvent} (h : FamilyOk s) (hfits : RoleFits s e)
    (hstep : ShellStep s e t) : FamilyOk t := by
  refine ⟨(roleFits_right h hfits hstep).2, ?_⟩
  rcases h.2 with hshell | hnone
  · exact .inl (shellStep_hasShell hshell hstep)
  cases hstep with
  | @tick k base parent frame execFrame eip hcount hres =>
    have hshell : HasShell ⟨k, base, parent⟩ := ⟨eip, shell_of_tick hres⟩
    exact .inl (shellStep_hasShell hshell (.tick hcount hres))
  | tickFails | execute | executeFails => exact .inr hnone
  | @halt k base parent status frame =>
    refine .inr fun t => ?_
    dsimp only
    rcases sysHalt k status frame with ⟨k₁, res⟩
    cases res with
    | resumed | faulted => exact hnone t
    | relaunched =>
      have hnone' : base t = none := hnone t
      simp [successor, hnone']

/-- Base shells survive.  Along every run of boot ticks, executes and halts in which the number of each halting process
is 1 or 2 exactly if it is a base shell, and `prev_pid` names its parent if it is not, the base shells that have been
started are alive.  From there, whatever step is taken, a terminal whose base shell has been started has one after it;
the step is right, and leaves the base shells alive, if it meets the condition; and, when there is a shell to launch,
only then. -/
theorem base_shells_iff {b : Boot} {events : List ShellEvent} {s : Family}
    (hrun : Run (Guarded RoleFits ShellStep) ⟨entry b, fun _ => none, fun _ => none⟩ events s) :
    BaseShellsLive s ∧ ∀ e t, ShellStep s e t → Started s t ∧
      (RoleFits s e → HaltsRight s e ∧ BaseShellsLive t) ∧
      (HasShell s → HaltsRight s e ∧ BaseShellsLive t → RoleFits s e) := by
  have hs : FamilyOk s := by
    refine Run.invariant (P := FamilyOk) ?_ hrun ⟨fun _ _ hp => (by cases hp), .inr fun _ => rfl⟩
    rintro s e t hs ⟨hfits, hstep⟩
    exact shellStep_ok hs hfits hstep
  refine ⟨hs.1, fun e t hstep => ⟨shellStep_started hstep, fun hfits => roleFits_right hs hfits hstep, ?_⟩⟩
  exact fun hshell hright => (shellStep_right_iff hshell hs.1 hstep).1 hright

/-! ### Numbers that do not fit -/

/-- A process executes a shell. -/
def runShell : ShellEvent := .execute (some (asBytes "shell")) frame₀

section Fixed

variable {k k' : Kernel} {base base' : Fin 3 → Option (Fin 6)} {parent parent' : Fin 6 → Option (Fin 6)} {p q : Fin 6}
  {eip : Int}

private theorem launching_tick {t : Fin 3} (hcount : k.pitCount = t.val)
    (hres : (pitHandler k frame₀ frame₀).2 = .launched eip)
    (hk : (pitHandler k frame₀ frame₀).1 = k') (hpid : k'.pidCounter = p)
    (hbase : Function.update base t (some p) = base') (hparent : Function.update parent p none = parent') :
    ShellStep ⟨k, base, parent⟩ (.tick frame₀ frame₀) ⟨k', base', parent'⟩ := by
  subst hk hpid hbase hparent
  have hlt : k.pitCount < 3 := by omega
  have ht : t = ⟨k.pitCount, hlt⟩ := Fin.ext hcount.symm
  rw [ht]
  exact .tick hlt hres

private theorem launching_execute (hres : (sysExecute k (some (asBytes "shell")) frame₀).2 = .launched eip)
    (hk : (sysExecute k (some (asBytes "shell")) frame₀).1 = k') (hpid : k.pidCounter = p) (hchild : k'.pidCounter = q)
    (hparent : Function.update parent q (some p) = parent') :
    ShellStep ⟨k, base, parent⟩ runShell ⟨k', base, parent'⟩ := by
  subst hk hpid hchild hparent
  refine .execute fun herror => ?_
  rw [hres] at herror
  cases herror

private theorem resuming_halt {frame : Frame} {eax : Int} (hres : (sysHalt k 0 frame₀).2 = .resumed frame eax)
    (hk : (sysHalt k 0 frame₀).1 = k') : ShellStep ⟨k, base, parent⟩ (.halt 0 frame₀) ⟨k', base, parent⟩ := by
  have hsucc : successor base k.pidCounter (sysHalt k 0 frame₀) = base := successor_of_resumed hres
  have hstep : ShellStep ⟨k, base, parent⟩ (.halt 0 frame₀) ⟨(sysHalt k 0 frame₀).1,
    successor base k.pidCounter (sysHalt k 0 frame₀), parent⟩ := .halt
  rwa [hsucc, hk] at hstep

private theorem fits_of_program (hpid : k.pidCounter = p) (hprev : k.prevPid = q) (hbase : ∀ t, base t ≠ some p)
    (hrange : ¬(0 < p.val ∧ p.val < 3)) (hparent : parent p = some q) {status : UInt8} {frame : Frame} :
    RoleFits ⟨k, base, parent⟩ (.halt status frame) := by
  subst hpid hprev
  exact ⟨iff_of_false hrange fun ⟨t, ht⟩ => hbase t ht, fun _ => hparent⟩

end Fixed

/-- The base shells of the machine with one program after `n` ticks. -/
def bootBases (n : Nat) (t : Fin 3) : Option (Fin 6) := if t.val < n then some (t.castLE (by decide)) else none

/-- The only program is process `p`, a child of process `q`. -/
def onlyParent (p q : Fin 6) (r : Fin 6) : Option (Fin 6) := if r = p then some q else none

private theorem bootBases_zero : bootBases 0 = fun _ => none := by decide

private theorem firstShell_tick :
    ShellStep ⟨entry shellBoot, bootBases 0, fun _ => none⟩ (.tick frame₀ frame₀)
      ⟨firstShell, bootBases 1, fun _ => none⟩ := by
  have hcount : (entry shellBoot).pitCount = (0 : Fin 3).val := by decide +kernel
  have hres : (pitHandler (entry shellBoot) frame₀ frame₀).2 = .launched 0x8048000 := by decide +kernel
  have hpid : firstShell.pidCounter = 0 := by decide +kernel
  exact launching_tick hcount hres rfl hpid (by decide) (by decide)

private theorem twoShells_tick :
    ShellStep ⟨firstShell, bootBases 1, fun _ => none⟩ (.tick frame₀ frame₀)
      ⟨twoShells, bootBases 2, fun _ => none⟩ := by
  have hcount : firstShell.pitCount = (1 : Fin 3).val := by decide +kernel
  have hres : (pitHandler firstShell frame₀ frame₀).2 = .launched 0x8048000 := by decide +kernel
  have hpid : twoShells.pidCounter = 1 := by decide +kernel
  exact launching_tick hcount hres rfl hpid (by decide) (by decide)

private theorem threeShells_tick :
    ShellStep ⟨twoShells, bootBases 2, fun _ => none⟩ (.tick frame₀ frame₀)
      ⟨threeShells, bootBases 3, fun _ => none⟩ := by
  have hcount : twoShells.pitCount = (2 : Fin 3).val := by decide +kernel
  have hres : (pitHandler twoShells frame₀ frame₀).2 = .launched 0x8048000 := by decide +kernel
  have hpid : threeShells.pidCounter = 2 := by decide +kernel
  exact launching_tick hcount hres rfl hpid (by decide) (by decide)

private theorem secondShell_execute :
    ShellStep ⟨firstShell, bootBases 1, fun _ => none⟩ runShell ⟨secondShell, bootBases 1, onlyParent 1 0⟩ := by
  have hres : (sysExecute firstShell (some (asBytes "shell")) frame₀).2 = .launched 0x8048000 := by decide +kernel
  have hpid : firstShell.pidCounter = 0 := by decide +kernel
  have hchild : secondShell.pidCounter = 1 := by decide +kernel
  exact launching_execute hres rfl hpid hchild (by decide)

private theorem fourShells_execute :
    ShellStep ⟨threeShells, bootBases 3, fun _ => none⟩ runShell ⟨fourShells, bootBases 3, onlyParent 3 2⟩ := by
  have hres : (sysExecute threeShells (some (asBytes "shell")) frame₀).2 = .launched 0x8048000 := by decide +kernel
  have hpid : threeShells.pidCounter = 2 := by decide +kernel
  have hchild : fourShells.pidCounter = 3 := by decide +kernel
  exact launching_execute hres rfl hpid hchild (by decide)

/-- Three ticks; then the third shell executes a program, which halts. -/
theorem fourShells_base_shells :
    let s : Family := ⟨(sysHalt fourShells 0 frame₀).1, bootBases 3, onlyParent 3 2⟩
    BaseShellsLive s ∧ ∀ e t, ShellStep s e t → Started s t ∧
      (RoleFits s e → HaltsRight s e ∧ BaseShellsLive t) ∧
      (HasShell s → HaltsRight s e ∧ BaseShellsLive t → RoleFits s e) := by
  intro s
  have hres : (sysHalt fourShells 0 frame₀).2 = .resumed frame₀ 0 := by decide +kernel
  have hpid : fourShells.pidCounter = 3 := by decide +kernel
  have hprev : fourShells.prevPid = 2 := by decide +kernel
  have hfits : RoleFits ⟨fourShells, bootBases 3, onlyParent 3 2⟩ (.halt 0 frame₀) :=
    fits_of_program hpid hprev (by decide) (by decide) (by decide)
  have hrun : Run (Guarded RoleFits ShellStep) ⟨entry shellBoot, fun _ => none, fun _ => none⟩
      ([] ++ [.tick frame₀ frame₀] ++ [.tick frame₀ frame₀] ++ [.tick frame₀ frame₀] ++ [runShell] ++ [.halt 0 frame₀])
      s := by
    rw [← bootBases_zero]
    exact .snoc (.snoc (.snoc (.snoc (.snoc (.nil _) ⟨trivial, firstShell_tick⟩) ⟨trivial, twoShells_tick⟩)
      ⟨trivial, threeShells_tick⟩) ⟨trivial, fourShells_execute⟩) ⟨hfits, resuming_halt hres rfl⟩
  exact base_shells_iff hrun

/-- The first shell halts after the first tick, and its terminal is left without one.  A program that it executes gets
number 1, and is relaunched. -/
theorem first_shell_lost :
    Run ShellStep ⟨entry shellBoot, fun _ => none, fun _ => none⟩ [.tick frame₀ frame₀, .halt 0 frame₀]
        ⟨(sysHalt firstShell 0 frame₀).1, bootBases 1, fun _ => none⟩ ∧
      ¬BaseShellsLive ⟨(sysHalt firstShell 0 frame₀).1, bootBases 1, fun _ => none⟩ ∧
      Run ShellStep ⟨entry shellBoot, fun _ => none, fun _ => none⟩ [.tick frame₀ frame₀, runShell]
        ⟨secondShell, bootBases 1, onlyParent 1 0⟩ ∧
      ¬HaltsRight ⟨secondShell, bootBases 1, onlyParent 1 0⟩ (.halt 0 frame₀) := by
  have hres : (sysHalt firstShell 0 frame₀).2 = .resumed frame₀ 0 := by decide +kernel
  have hfree : (sysHalt firstShell 0 frame₀).1.inUse 0 = false := by decide +kernel
  have hrelaunched : (sysHalt secondShell 0 frame₀).2 = .relaunched 0x8048000 := by decide +kernel
  have hpid : secondShell.pidCounter = 1 := by decide +kernel
  rw [← bootBases_zero]
  refine ⟨.snoc (Run.single firstShell_tick) (resuming_halt hres rfl), fun hlive => ?_,
    .snoc (Run.single firstShell_tick) secondShell_execute, fun hright => ?_⟩
  · have huse := hlive 0 0 (by decide)
    dsimp only at huse
    rw [hfree] at huse
    cases huse
  · obtain ⟨t, ht⟩ := hright.1.1 ⟨_, hrelaunched⟩
    dsimp only at ht
    rw [hpid] at ht
    exact absurd ht (by revert t; decide)

end BigChungOS
