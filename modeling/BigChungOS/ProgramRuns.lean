import BigChungOS.ProgramView

/-!
# Running a program

The kernel refines what a program sees of it (`kernel_refines`): what a program ensures over the small system of `Os`,
it ensures when the kernel runs it, with any interrupts between its calls, from any state in which `sys_execute` has
launched it (`programs_refine`).
-/

namespace BigChungOS

open Memory Transition Reading Programs Programs.Program

/-! ### The refinement -/

private theorem hasBytes_cString (bytes : List UInt8) : HasBytes (cString bytes) bytes := by
  refine List.ext_getElem (by simp) fun i hi hi' => ?_
  rw [List.getElem_map, List.getElem_range, cString, List.getD_eq_getElem _ _ hi']

/-- The kernel refines what the program sees, whatever the interrupts are. -/
theorem callService_refines {I : Kernel → Kernel → Prop} (hI : ∀ k k', I k k' → Interrupt k k') (files : List File)
    (inodes blocks : Nat) : Refines (callService I) (osService files) (Sees files inodes blocks) where
  takes := by
    rintro ⟨k, printed⟩ os c h htakes
    cases c with
    | open_ filename =>
      obtain ⟨k', hcall, -⟩ := h.open_ (isString_cString htakes)
      exact .inr ⟨_, _, .open_ .refl (isString_cString htakes) hcall⟩
    | read fd nbytes =>
      by_cases hfd : fd = 0
      · exact .inl hfd
      · obtain ⟨k', hcall, -⟩ := h.read (fun _ => 0) hfd htakes.1 htakes.2
        exact .inr ⟨_, _, .read .refl hcall⟩
    | write fd bytes =>
      obtain ⟨k', hcall, -⟩ := h.write fd (hasBytes_cString bytes)
      exact .inr ⟨_, _, .write .refl (hasBytes_cString bytes) hcall⟩
    | close fd => exact .inr ⟨_, _, .close .refl⟩
    | getargs nbytes =>
      obtain ⟨k', g, hcall, -⟩ := h.getargs htakes.1 htakes.2
      exact .inr ⟨_, _, .getargs .refl hcall⟩
    | vidmap screenStart =>
      obtain ⟨k', r, hcall, -⟩ := h.vidmap htakes
      exact .inr ⟨_, _, .vidmap .refl hcall⟩
    | number eax => exact .inr ⟨_, _, .number .refl (otherCall_eq.2 htakes)⟩
  returns := by
    intro s os c r s' h htakes hreturns
    cases hreturns with
    | open_ hint hname hcall =>
      obtain ⟨k'', hcall', hsees⟩ := (h.interrupts hI hint).open_ hname
      rw [hcall, Option.some.injEq, Prod.mk.injEq] at hcall'
      obtain ⟨rfl, rfl⟩ := hcall'
      exact ⟨_, ⟨rfl, rfl⟩, hsees⟩
    | @read k k₁ k' printed stored fd nbytes r buf hint hcall =>
      have h₁ := h.interrupts hI hint
      by_cases hfd : fd = 0
      · subst hfd
        obtain ⟨hline, hsees⟩ := h₁.readKeyboard htakes.1 hcall
        exact ⟨os, ⟨rfl, hline⟩, hsees⟩
      · obtain ⟨k'', hcall', hsees⟩ := h₁.read buf hfd htakes.1 htakes.2
        rw [hcall, Option.some.injEq, Prod.mk.injEq] at hcall'
        obtain ⟨rfl, hr⟩ := hcall'
        refine ⟨_, ?_, hsees⟩
        show ite _ _ _
        rw [if_neg hfd, hr]
    | @write k k₁ k' printed bytes fd r buf hint hbuf hcall =>
      obtain ⟨k'', hcall', hsees⟩ := (h.interrupts hI hint).write fd hbuf
      rw [hcall, Option.some.injEq, Prod.mk.injEq] at hcall'
      obtain ⟨rfl, rfl⟩ := hcall'
      exact ⟨_, ⟨rfl, rfl⟩, hsees⟩
    | close hint =>
      obtain ⟨hr, hsees⟩ := (h.interrupts hI hint).close
      exact ⟨_, ⟨Prod.ext rfl hr.symm, rfl⟩, hsees⟩
    | getargs hint hcall =>
      obtain ⟨k'', g', hcall', hr, hsees⟩ := (h.interrupts hI hint).getargs htakes.1 htakes.2
      rw [hcall, Option.some.injEq, Prod.mk.injEq] at hcall'
      obtain ⟨rfl, rfl⟩ := hcall'
      exact ⟨_, Prod.ext rfl hr, hsees⟩
    | vidmap hint hcall =>
      obtain ⟨k'', r', hcall', hpage, hsees⟩ := (h.interrupts hI hint).vidmap htakes
      rw [hcall, Option.some.injEq, Prod.mk.injEq] at hcall'
      obtain ⟨rfl, rfl⟩ := hcall'
      exact ⟨os, ⟨rfl, hpage⟩, hsees⟩
    | number hint hcall =>
      rw [otherCall_eq.2 htakes] at hcall
      obtain rfl := Option.some.inj hcall
      exact ⟨os, ⟨rfl, rfl⟩, h.interrupts hI hint⟩

theorem kernel_refines (files : List File) (inodes blocks : Nat) :
    Refines kernelService (osService files) (Sees files inodes blocks) :=
  callService_refines (fun _ _ h => h) files inodes blocks

/-! ### What the calls ensure -/

section Calls

variable {files : List File} {os : Os files} {Q : CallResult → Os files → Prop}

@[simp] theorem ensures_open {filename : List UInt8} :
    (send (.open_ filename)).Ensures (osService files) Q os ↔
      (0 : UInt8) ∉ filename ∧ Q ((os.open_ filename).2, []) (os.open_ filename).1 := by
  refine and_congr_right fun _ => ⟨fun h => h _ _ ⟨rfl, rfl⟩, ?_⟩
  rintro h ⟨r, stored⟩ os' ⟨hcall, rfl⟩
  rwa [hcall] at h

/-- A read of a descriptor that has been opened. -/
theorem ensures_read {fd nbytes : Int} (hfd : fd ≠ 0) :
    (send (.read fd nbytes)).Ensures (osService files) Q os ↔
      (0 ≤ nbytes ∧ nbytes < 2147483648) ∧ Q (os.read fd nbytes).2 (os.read fd nbytes).1 := by
  have hreturns : ∀ r os', os.CallReturns (.read fd nbytes) r os' ↔ os.read fd nbytes = (os', r) := by
    intro r os'
    show ite _ _ _ ↔ _
    rw [if_neg hfd]
  refine and_congr_right fun _ => ⟨fun h => h _ _ ((hreturns _ _).2 rfl), fun h r os' hcall => ?_⟩
  rwa [(hreturns r os').1 hcall] at h

@[simp] theorem ensures_write {fd : Int} {bytes : List UInt8} :
    (send (.write fd bytes)).Ensures (osService files) Q os ↔
      bytes.length < 2147483648 ∧ Q ((os.write fd bytes).2, []) (os.write fd bytes).1 := by
  refine and_congr_right fun _ => ⟨fun h => h _ _ ⟨rfl, rfl⟩, ?_⟩
  rintro h ⟨r, stored⟩ os' ⟨hcall, rfl⟩
  rwa [hcall] at h

@[simp] theorem ensures_close {fd : Int} :
    (send (.close fd)).Ensures (osService files) Q os ↔ Q ((os.close fd).2, []) (os.close fd).1 := by
  refine (and_iff_right trivial).trans ⟨fun h => h _ _ ⟨rfl, rfl⟩, ?_⟩
  rintro h ⟨r, stored⟩ os' ⟨hcall, rfl⟩
  rwa [hcall] at h

@[simp] theorem ensures_getargs {nbytes : Int} :
    (send (.getargs nbytes)).Ensures (osService files) Q os ↔
      (0 ≤ nbytes ∧ nbytes ≤ 1024) ∧ Q (os.getargs nbytes).2 (os.getargs nbytes).1 := by
  refine and_congr_right fun _ => ⟨fun h => h _ _ rfl, ?_⟩
  rintro h r os' hcall
  rwa [show os.getargs nbytes = (os', r) from hcall] at h

theorem ensures_vidmap {screenStart : Nat} :
    (send (.vidmap screenStart)).Ensures (osService files) Q os ↔
      ¬(0x83FFFFD ≤ screenStart ∧ screenStart ≤ 0x8400000) ∧ ∀ r, Os.VideoPage screenStart r → Q r os := by
  refine and_congr_right fun _ => ⟨fun h r hr => h r os ⟨rfl, hr⟩, ?_⟩
  rintro h r os' ⟨rfl, hr⟩
  exact h r hr

theorem ensures_number {eax : Nat} :
    (send (.number eax)).Ensures (osService files) Q os ↔ (¬(1 ≤ eax ∧ eax ≤ 8) ∧ eax ≠ 11) ∧ Q (-1, []) os := by
  refine and_congr_right fun _ => ⟨fun h => h _ os ⟨rfl, rfl⟩, ?_⟩
  rintro h r os' ⟨rfl, rfl⟩
  exact h

end Calls

namespace Os

variable {files : List File} {os : Os files} {filename : List UInt8} {f : File} {d : Fin 8}

/-- Opening a file that is there. -/
theorem open_file (hdistinct : (files.map File.name).Nodup) (hf : f ∈ files) (hname : f.name = filename.take 32)
    (hfree : os.free = some d) :
    os.open_ filename = ((os.setView d (some (.of f))).moveTo
      (if f.filetype = 1 ∧ filename.head? = some 0x2E then 0 else os.cursor), (d.val : Int)) := by
  have hfind : (files.find? fun f => f.name = filename.take 32) = some f := by
    obtain ⟨g, hg⟩ : ∃ g, (files.find? fun f => f.name = filename.take 32) = some g := by
      refine Option.isSome_iff_exists.1 (List.find?_isSome.2 ⟨f, hf, ?_⟩)
      simpa using hname
    have hsame : g.name = filename.take 32 := by simpa using List.find?_some hg
    rw [hg, List.inj_on_of_nodup_map hdistinct (List.mem_of_find?_eq_some hg) hf (hsame.trans hname.symm)]
  unfold open_
  rw [hfind, hfree]

/-- Opening a file that is not there. -/
theorem open_missing (h : ∀ f ∈ files, f.name ≠ filename.take 32) : os.open_ filename = (os, -1) := by
  have hfind : (files.find? fun f => f.name = filename.take 32) = none := by
    rw [List.find?_eq_none]
    intro f hf
    simpa using h f hf
  unfold open_
  rw [hfind]

/-- The index of a descriptor that has been given out. -/
theorem index_val (d : Fin 8) : fdIndex d.val = d := (fdIndex_eq_iff ⟨by omega, by omega⟩).2 rfl

theorem view_val (hd : 2 ≤ d.val) : os.view d.val = os.views d := by
  rw [view, if_pos ⟨by omega, by omega⟩, index_val]

theorem read_file {r : Reading.Reader UInt8} (hd : 2 ≤ d.val) (h : os.views d = some (.file r)) (nbytes : Int) :
    os.read d.val nbytes = (os.setView d (some (.file (r.next nbytes.toNat))),
      ((r.chunk nbytes.toNat).length : Int), r.chunk nbytes.toNat) := by
  rw [read, view_val hd, h, index_val]

theorem read_directory (hd : 2 ≤ d.val) (h : os.views d = some .directory) (nbytes : Int) :
    os.read d.val nbytes = (os.moveTo (os.cursor + 1), (listing files).getD os.cursor.val (0, [])) := by
  rw [read, view_val hd, h]

theorem read_clock (hd : 2 ≤ d.val) (h : os.views d = some .clock) (nbytes : Int) :
    os.read d.val nbytes = (os, 0, []) := by
  rw [read, view_val hd, h]

end Os

/-- The arguments in a buffer. -/
theorem Os.getargs_some {files : List File} {os : Os files} (h : os.args ≠ []) (nbytes : Int) :
    os.getargs nbytes = (os.noArgs, 0, (List.range nbytes.toNat).map (cString os.args)) := if_neg h

/-- The string in a buffer that holds it. -/
theorem takeWhile_cString {s : List UInt8} (h : (0 : UInt8) ∉ s) {n : Nat} (hn : s.length ≤ n) :
    ((List.range n).map (cString s)).takeWhile (· ≠ 0) = s := by
  obtain ⟨room, rfl⟩ := Nat.exists_eq_add_of_le hn
  have hspelled : (List.range s.length).map (cString s) = s := hasBytes_cString s
  have hnonzero : ∀ c ∈ s, decide (c ≠ 0) = true := fun c hc => by simpa using ne_of_mem_of_not_mem hc h
  rw [List.range_add, List.map_append, hspelled, List.takeWhile_append_of_pos hnonzero]
  have hrest : ((List.range room).map (s.length + ·)).map (cString s) = List.replicate room 0 := by
    rw [List.map_map, List.eq_replicate_iff]
    refine ⟨by simp, fun c hc => ?_⟩
    obtain ⟨i, -, rfl⟩ := List.mem_map.1 hc
    exact List.getD_eq_default _ _ (Nat.le_add_right _ _)
  rw [hrest]
  cases room with
  | zero => simp
  | succ room => simp [List.replicate_succ]

/-! ### Programs that are launched -/

/-- The states in which a program starts, with the arguments `args`: boot with an image of the files, let the first
shell be launched and any calls follow, up to a `sys_execute` that launches the program. -/
inductive ProgramStarted (files : List File) (inodes blocks : Nat) : List UInt8 → Kernel → Prop
  | launch {b : Boot} {frame execFrame programFrame : Frame} {eip eip' : Int} {calls : List Call} {k : Kernel}
      {command : List UInt8} (hlayout : Layout b.image files inodes blocks)
      (hshell : (pitHandler (entry b) frame execFrame).2 = .launched eip)
      (hcalls : Run CallStep (pitHandler (entry b) frame execFrame).1 calls k)
      (hlaunch : (sysExecute k (some command) programFrame).2 = .launched eip') :
      ProgramStarted files inodes blocks (firstWord (afterWord command)) (sysExecute k (some command) programFrame).1

/-- Nothing is open, and nothing has been written. -/
structure Os.Fresh {files : List File} (os : Os files) (args : List UInt8) : Prop where
  views : ∀ d, os.views d = none
  args : os.args = args
  out : os.out = []

theorem Os.Fresh.free {files : List File} {os : Os files} {args : List UInt8} (h : os.Fresh args) :
    os.free = some 2 := by
  simp [Os.free, h.views]

section Launch

variable {files : List File} {inodes blocks : Nat} {args : List UInt8} {k : Kernel}

/-- The position in the directory is one of an entry, or the end. -/
private theorem calls_cursor {k k' : Kernel} {calls : List Call} (h : FilesOk files inodes blocks k)
    (hcursor : k.fs.currDir ≤ files.length) (hcalls : Run CallStep k calls k') :
    FilesOk files inodes blocks k' ∧ k'.fs.currDir ≤ files.length := by
  refine Run.invariant (P := fun k => FilesOk files inodes blocks k ∧ k.fs.currDir ≤ files.length) ?_ hcalls
    ⟨h, hcursor⟩
  rintro k c k' ⟨hk, hcurr⟩ hstep
  have hcount := hk.layout.dirCount hk.mounted
  refine ⟨callStep_filesOk hk hstep, ?_⟩
  rw [← hcount] at hcurr ⊢
  exact callStep_currDir hk.slots hcurr hstep

/-- A program that has been launched starts with a fresh system. -/
theorem launched_sees {command : List UInt8} {frame : Frame} {eip : Int} (h : FilesOk files inodes blocks k)
    (hcursor : k.fs.currDir ≤ files.length) (hlaunch : (sysExecute k (some command) frame).2 = .launched eip) :
    ∃ os : Os files, os.Fresh (firstWord (afterWord command)) ∧
      Sees files inodes blocks ⟨(sysExecute k (some command) frame).1, []⟩ os := by
  obtain ⟨text, pid, htext, -, -, hlength, hstate⟩ := sysExecute_launched_eq hlaunch
  cases htext
  have hlaunched := sysExecute_launched hlaunch
  have hok : FilesOk files inodes blocks (sysExecute k (some command) frame).1 := callStep_filesOk h .execute
  have hfs : (sysExecute k (some command) frame).1.fs = k.fs := (sysExecute_sameDevices k _ _).fs
  let os : Os files := .start ⟨k.fs.currDir, by omega⟩ (firstWord (afterWord command)) hlength (firstWord_bytes _)
  refine ⟨os, ⟨fun _ => rfl, rfl, rfl⟩, ⟨hok, hlaunched.inUse, fun d hd => ?_, ?_, fun i hi => ?_, rfl⟩⟩
  · have hclosed : ¬d.val < 2 := by omega
    show ((sysExecute k (some command) frame).1.fdt d).exists_ = false
    rw [hlaunched.fdt]
    simp [initFdt, hclosed]
  · show (sysExecute k (some command) frame).1.fs.currDir = k.fs.currDir
    rw [hfs]
  · have hpid : (sysExecute k (some command) frame).1.pidCounter = pid := by
      rw [hstate]
      rfl
    show ((sysExecute k (some command) frame).1.allPcbs _).args i = cString (firstWord (afterWord command)) i
    rw [hpid, hstate, launch_args]
    dsimp only
    by_cases hin : i < (firstWord (afterWord command)).length
    · rw [if_pos hin]
      rfl
    · rw [if_neg hin, if_pos hi]
      exact (List.getD_eq_default _ _ (by omega)).symm

theorem ProgramStarted.sees (h : ProgramStarted files inodes blocks args k) :
    ∃ os : Os files, os.Fresh args ∧ Sees files inodes blocks ⟨k, []⟩ os := by
  obtain @⟨b, frame, execFrame, programFrame, eip, eip', calls, k, command, hlayout, hshell, hcalls, hlaunch⟩ := h
  have hfirst : (pitHandler (entry b) frame execFrame).1.fs.currDir = 0 := by
    rw [pitHandler_fs, entry_fs]
    rfl
  obtain ⟨hk, hcursor⟩ := calls_cursor (firstShell_filesOk hlayout hshell) (by omega) hcalls
  exact launched_sees hk hcursor hlaunch

theorem ProgramStarted.distinct (h : ProgramStarted files inodes blocks args k) : (files.map File.name).Nodup := by
  obtain ⟨hlayout⟩ := h
  exact hlayout.distinct

/-- Whatever a program ensures over the system it sees, it ensures when the kernel runs it: its calls return, but for
reads of the keyboard that wait, and it ends with the result and the text that the system gives it. -/
theorem programs_refine (h : ProgramStarted files inodes blocks args k) {α : Type} {p : Program Syscall CallResult α}
    {Q : α → Os files → Prop} (hp : ∀ os : Os files, os.Fresh args → p.Ensures (osService files) Q os) :
    p.Ensures kernelService (fun a s => ∃ os, Sees files inodes blocks s os ∧ Q a os) ⟨k, []⟩ := by
  obtain ⟨os, hfresh, hsees⟩ := h.sees
  exact (kernel_refines files inodes blocks).ensures (hp os hfresh) hsees

/-- The same for what a program returns and prints. -/
theorem ProgramStarted.prints (h : ProgramStarted files inodes blocks args k) {α : Type}
    {p : Program Syscall CallResult α} {R : α → List UInt8 → Prop}
    (hp : ∀ os : Os files, os.Fresh args → p.Ensures (osService files) (fun a os => R a os.out) os) :
    p.Ensures kernelService (fun a s => R a s.printed) ⟨k, []⟩ := by
  obtain ⟨os, hfresh, hsees⟩ := h.sees
  refine ((kernel_refines files inodes blocks).ensures (hp os hfresh) hsees).mono ?_
  rintro a s ⟨os', hsees', hQ⟩
  rw [hsees'.out]
  exact hQ

end Launch

/-- The state in which the program of a small machine starts. -/
def dotProgram : Kernel := (sysExecute dotShell (some (asBytes "shell shell")) frame₀).1

theorem dotProgram_started : ProgramStarted [dotFile, shellFile] 1 1 (asBytes "shell") dotProgram := by
  have hshell : (pitHandler (entry dotBoot) frame₀ frame₀).2 = .launched 0x8048000 := by decide +kernel
  have hlaunch : (sysExecute dotShell (some (asBytes "shell shell")) frame₀).2 = .launched 0x8048000 := by
    decide +kernel
  have hargs : firstWord (afterWord (asBytes "shell shell")) = asBytes "shell" := by decide
  have hstarted := ProgramStarted.launch dotImage_layout hshell (.nil _) hlaunch
  rwa [hargs] at hstarted

/-- It opens its argument and reads four bytes. -/
def readMagic : Program Syscall CallResult CallResult := do
  let args ← send (.getargs 32)
  let fd ← send (.open_ (args.2.takeWhile (· ≠ 0)))
  send (.read fd.1 4)

/-- They are the magic number of an executable. -/
theorem dotProgram_readMagic :
    readMagic.Ensures kernelService (fun r s => ∃ os : Os [dotFile, shellFile],
      Sees [dotFile, shellFile] 1 1 s os ∧ r = (4, [0x7F, 0x45, 0x4C, 0x46])) ⟨dotProgram, []⟩ := by
  refine programs_refine dotProgram_started (p := readMagic)
    (Q := fun r _ => r = (4, [0x7F, 0x45, 0x4C, 0x46])) fun os hfresh => ?_
  have hargs : os.args = asBytes "shell" := hfresh.args
  have hne : os.args ≠ [] := by rw [hargs]; decide
  have hname : ((List.range (Int.toNat 32)).map (cString os.args)).takeWhile (· ≠ 0) = asBytes "shell" := by
    have htext := takeWhile_cString os.argsBytes os.argsLength
    rw [hargs] at htext ⊢
    exact htext
  have hopen : os.noArgs.open_ (asBytes "shell") = _ :=
    Os.open_file (f := shellFile) (d := 2) dotImage_layout.distinct (by simp) rfl hfresh.free
  simp only [readMagic, ensures_bind, ensures_getargs, ensures_open, Os.getargs_some hne]
  rw [hname, hopen, ensures_read (show ((2 : Fin 8).val : Int) ≠ 0 by decide)]
  rw [Os.read_file (by decide) (show _ = some (View.file (.start shellFile.contents)) from rfl)]
  exact ⟨by decide, by decide, by decide, rfl⟩

end BigChungOS
