import BigChungOS.RoundTrip

/-!
# The positions in open files

`file_bytes_read` of a descriptor is the number of bytes read through it: at most the length of its file, and as it was
after a read that fails (`PositionsOk`, `ErrorKeeps`).  `file_read_helper` adds to it whatever `file_read` returns, so
a read of a negative number of bytes, which returns -1, moves the position back by one, or from 0 to `2^32 - 1`.  Along
a run without such reads the positions stay right, and from there a call keeps them right exactly when it is not such a
read (`file_positions_iff`).
-/

namespace BigChungOS

open Memory Transition

/-! ### What holds of every open slot -/

/-- The processes whose descriptors may be used again: those in use, the running one and the one to resume. -/
def Live (k : Kernel) (p : Fin 6) : Prop := k.inUse p = true ∨ p = k.pidCounter ∨ p = k.prevPid

/-- Every open slot of every live process has the property `P`. -/
def OpenSlots (P : FdTable → Prop) (k : Kernel) : Prop :=
  ∀ p, Live k p → ∀ d, ((k.allPcbs p).fdt d).exists_ = true → P ((k.allPcbs p).fdt d)

section Slots

variable {P : FdTable → Prop} {k k' : Kernel}

/-- A new process has only the terminal's slots. -/
private theorem initFdt_terminal {fdt : Fin 8 → FdTable} {d : Fin 8} (h : (initFdt fdt d).exists_ = true) :
    (initFdt fdt d).fop_ = .terminal := by
  unfold initFdt at h ⊢
  split_ifs at h ⊢
  rfl

/-- A call of the running process on its own descriptors. -/
theorem OpenSlots.call (h : OpenSlots P k) (hc : CallsOnly k k')
    (hrunning : ∀ d, (k'.fdt d).exists_ = true → P (k'.fdt d)) : OpenSlots P k' := by
  intro p hp d
  by_cases hpid : p = k.pidCounter
  · rw [hpid, ← hc.pidCounter]
    exact hrunning d
  · rw [Live, hc.inUse, hc.pidCounter, hc.prevPid] at hp
    rw [hc.pcb p hpid]
    exact h p hp d

theorem OpenSlots.running (h : OpenSlots P k) {d : Fin 8} (hd : (k.fdt d).exists_ = true) : P (k.fdt d) :=
  h k.pidCounter (.inr (.inl rfl)) d hd

/-- Slots that are closed or were there before. -/
private theorem OpenSlots.sub (h : OpenSlots P k) (hlive : ∀ p, Live k' p → Live k p)
    (hslot : ∀ p d, ((k'.allPcbs p).fdt d).exists_ = true → (k'.allPcbs p).fdt d = (k.allPcbs p).fdt d) :
    OpenSlots P k' := by
  intro p hp d hd
  have hsame := hslot p d hd
  rw [hsame] at hd ⊢
  exact h p (hlive p hp) d hd

private theorem Failed.openSlots (hterminal : ∀ e : FdTable, e.fop_ = .terminal → P e) (h : OpenSlots P k)
    (hf : Failed k k') : OpenSlots P k' := by
  intro p hp d hd
  rw [Live, hf.pidCounter, hf.prevPid, Kernel.inUse, ← Kernel.inUse, hf.inUse] at hp
  rcases hf.fdt p with hsame | hnew
  · rw [hsame] at hd ⊢
    exact h p (by unfold Live; tauto) d hd
  · rw [hnew] at hd ⊢
    exact hterminal _ (initFdt_terminal hd)

/-- A process with a new PCB joins those of `k`. -/
private theorem OpenSlots.newProcess (h : OpenSlots P k) (hterminal : ∀ e : FdTable, e.fop_ = .terminal → P e)
    (hprev : k'.prevPid = k.pidCounter) (hfdt : k'.fdt = initFdt (k.allPcbs k'.pidCounter).fdt)
    (hpcb : ∀ p ≠ k'.pidCounter, k'.allPcbs p = k.allPcbs p) : OpenSlots P k' := by
  intro p hp d hd
  by_cases hpid : p = k'.pidCounter
  · have hslot : (k'.allPcbs p).fdt = initFdt (k.allPcbs k'.pidCounter).fdt := by rw [hpid]; exact hfdt
    rw [hslot] at hd ⊢
    exact hterminal _ (initFdt_terminal hd)
  · rw [Live, Kernel.inUse, hpcb p hpid, ← Kernel.inUse, hprev] at hp
    rw [hpcb p hpid] at hd ⊢
    exact h p (by unfold Live; tauto) d hd

private theorem sysExecute_openSlots (hterminal : ∀ e : FdTable, e.fop_ = .terminal → P e) (h : OpenSlots P k)
    (command : Option (List UInt8)) (frame : Frame) :
    OpenSlots P (sysExecute k command frame).1 := by
  cases hres : (sysExecute k command frame).2 with
  | error => exact (sysExecute_failed hres).openSlots hterminal h
  | launched eip =>
    have hlaunch := sysExecute_launched hres
    exact h.newProcess hterminal hlaunch.prevPid hlaunch.fdt hlaunch.pcb
  | faulted =>
    have hfault := sysExecute_faulted hres
    exact h.newProcess hterminal hfault.prevPid hfault.fdt hfault.pcb

/-- Closing a descriptor opens none. -/
theorem sysClose_slot (k : Kernel) (hf : FdtOk k.fdt) (fd : Int) (p : Fin 6) (d : Fin 8)
    (hd : (((sysClose k fd).1.allPcbs p).fdt d).exists_ = true) :
    ((sysClose k fd).1.allPcbs p).fdt d = (k.allPcbs p).fdt d := by
  by_cases hc : Closable k fd
  · have honly := (sysClose_filesOnly k fd).callsOnly
    by_cases hpid : p = k.pidCounter
    · have hfdt : ((sysClose k fd).1.allPcbs p).fdt = Function.update k.fdt (fdIndex fd)
          { k.fdt (fdIndex fd) with exists_ := false, fileBytesRead := 0 } := by
        rw [← (sysClose_fdt hf hc).2, Kernel.fdt, honly.pidCounter, hpid]
      rw [hfdt] at hd ⊢
      by_cases hslot : d = fdIndex fd
      · subst hslot
        simp at hd
      · rw [Function.update_of_ne hslot, hpid]
        rfl
    · rw [honly.pcb p hpid]
  · rw [sysClose_fails hc]

private theorem sysClose_openSlots (h : OpenSlots P k) (hf : FdtOk k.fdt) (fd : Int) :
    OpenSlots P (sysClose k fd).1 := by
  have honly := (sysClose_filesOnly k fd).callsOnly
  refine h.sub (fun p hp => ?_) (sysClose_slot k hf fd)
  rwa [Live, honly.inUse, honly.pidCounter, honly.prevPid] at hp

/-- Giving the PCB back closes all slots but the first two, and opens none. -/
theorem released_slot (hslots : SlotsOk k) (p : Fin 6) (d : Fin 8)
    (hd : (((released k).allPcbs p).fdt d).exists_ = true) :
    ((released k).allPcbs p).fdt d = (k.allPcbs p).fdt d := by
  have key : ∀ (l : List Int) (k : Kernel), SlotsOk k →
      (((l.foldl (fun k fd => (sysClose k fd).1) k).allPcbs p).fdt d).exists_ = true →
      ((l.foldl (fun k fd => (sysClose k fd).1) k).allPcbs p).fdt d = (k.allPcbs p).fdt d := by
    intro l
    induction l with
    | nil => exact fun _ _ _ => rfl
    | cons fd l ih =>
      intro k hk hopen
      have hrest := ih _ (sysClose_slotsOk hk fd) hopen
      rw [List.foldl_cons, hrest] at hopen ⊢
      exact sysClose_slot k hk.running fd p d hopen
  have hsame : ((released k).allPcbs p).fdt = ((closeAll k).allPcbs p).fdt := by
    by_cases hpid : p = (closeAll k).pidCounter
    · subst hpid; simp [released]
    · simp [released, hpid]
  rw [hsame] at hd ⊢
  exact key _ k hslots hd

private theorem released_openSlots (h : OpenSlots P k) (hslots : SlotsOk k) : OpenSlots P (released k) := by
  have hrel := released_spec k
  refine h.sub (fun p hp => ?_) (released_slot hslots)
  by_cases hpid : p = k.pidCounter
  · exact .inr (.inl hpid)
  · rwa [Live, hrel.inUse, Function.update_of_ne hpid, hrel.pidCounter, hrel.prevPid] at hp

private theorem HaltReturned.openSlots (h : OpenSlots P k) (hr : HaltReturned k k') : OpenSlots P k' := by
  refine h.sub (fun p hp => ?_) fun p d _ => by rw [hr.pcbs]
  rw [Live, Kernel.inUse, hr.pcbs, ← Kernel.inUse, hr.pidCounter, hr.prevPid] at hp
  unfold Live
  tauto

private theorem sysHalt_openSlots (hterminal : ∀ e : FdTable, e.fop_ = .terminal → P e) (h : OpenSlots P k)
    (hslots : SlotsOk k) (status : UInt8) (frame : Frame) :
    OpenSlots P (sysHalt k status frame).1 := by
  refine sysHalt_keeps (released_openSlots h hslots) ?_ ?_
  · exact fun _ hk => sysExecute_openSlots hterminal hk _ frame
  · exact fun _ hk => (haltReturn_spec _ status).openSlots hk

/-- `sys_open` opens a file at its beginning. -/
private theorem sysOpen_openSlots {filename : Nat → UInt8} {r : Int} (h : OpenSlots P k) (hslots : SlotsOk k)
    (hnew : ∀ i e, i < k.fs.bootBlockMain.dirCount → e.fileBytesRead = 0 →
      e.inode = (k.fs.bootBlockMain.direntries i).inodeNum →
      TypeMatches (k.fs.bootBlockMain.direntries i).filetype e.fop_ → P e)
    (hopen : sysOpen k filename = some (k', r)) : OpenSlots P k' := by
  obtain ⟨-, rfl⟩ | ⟨i, c, -, hname, hopens, -⟩ := hslots.sysOpen_cases hopen
  · exact h
  · refine h.call hopens.only fun d hd => ?_
    by_cases hc : d = c
    · obtain ⟨fop, hmatch, hadded⟩ := hopens.added
      have hslot := congrFun hadded d
      rw [hc, Function.update_self, ← hc, openFiles, if_pos hd] at hslot
      simp only [Option.some.injEq, Descriptor.mk.injEq] at hslot
      obtain ⟨hfop, -, hinode, hposition⟩ := hslot
      exact hnew i _ hname.1 hposition hinode (hfop ▸ hmatch)
    · rw [hopens.records d hc] at hd ⊢
      exact h.running hd

/-- `sys_read` can only move the position of its descriptor. -/
private theorem sysRead_openSlots {fd nbytes r : Int} {buf : Ptr} {stored : List UInt8} (h : OpenSlots P k)
    (hslots : SlotsOk k) (hread : sysRead k fd buf nbytes = some (k', r, stored))
    (hmoved : (k'.fdt (fdIndex fd)).exists_ = true → P (k'.fdt (fdIndex fd))) : OpenSlots P k' := by
  obtain ⟨⟨n, hfdt⟩, hc, -⟩ := sysRead_position hslots hread
  refine h.call hc fun d hd => ?_
  by_cases hslot : d = fdIndex fd
  · subst hslot
    exact hmoved hd
  · rw [hfdt, Function.update_of_ne hslot] at hd ⊢
    exact h.running hd

/-- Of all calls, only `sys_open` and `sys_read` make an open slot what it was not before. -/
private theorem callStep_openSlots {c : Call} (h : OpenSlots P k) (hslots : SlotsOk k)
    (hterminal : ∀ e : FdTable, e.fop_ = .terminal → P e)
    (hnew : ∀ i e, i < k.fs.bootBlockMain.dirCount → e.fileBytesRead = 0 →
      e.inode = (k.fs.bootBlockMain.direntries i).inodeNum →
      TypeMatches (k.fs.bootBlockMain.direntries i).filetype e.fop_ → P e)
    (hmoved : ∀ fd buf nbytes, c = .read fd buf nbytes → (k'.fdt (fdIndex fd)).exists_ = true → P (k'.fdt (fdIndex fd)))
    (hstep : CallStep k c k') : OpenSlots P k' := by
  cases hstep with
  | execute => exact sysExecute_openSlots hterminal h _ _
  | halt => exact sysHalt_openSlots hterminal h hslots _ _
  | open_ hopen => exact sysOpen_openSlots h hslots hnew hopen
  | close => exact sysClose_openSlots h hslots.running _
  | read hread => exact sysRead_openSlots h hslots hread (hmoved _ _ _ rfl)
  | write hwrite =>
    obtain ⟨hc, hpcbs⟩ := sysWrite_pcbs hwrite
    refine h.call hc fun d hd => ?_
    rw [Kernel.fdt, hpcbs, hc.pidCounter] at hd ⊢
    exact h.running hd
  | finishHalt => exact (haltReturn_spec k _).openSlots h
  | interrupt hsame =>
    refine h.sub (fun p hp => ?_) fun p d _ => by rw [hsame.fdt]
    rwa [Live, hsame.inUse, hsame.pidCounter, hsame.prevPid] at hp

end Slots

/-! ### Positions -/

/-- An open regular file has its contents in the image. -/
def HasFile (fs : FileSystem) (e : FdTable) : Prop := e.fop_ = .file → ∃ contents, Holds fs e.inode contents

/-- The position in an open regular file is at most its length. -/
def PositionOk (fs : FileSystem) (e : FdTable) : Prop :=
  e.fop_ = .file → e.fileBytesRead ≤ fs.word (1024 * (1 + e.inode))

/-- The positions in all open regular files. -/
def PositionsOk (k : Kernel) : Prop := OpenSlots (PositionOk k.fs) k

/-- A read that returns -1 has moved no position. -/
def ErrorKeeps (k : Kernel) : Call → Prop
  | .read fd buf nbytes => ∀ k' stored, sysRead k fd buf nbytes = some (k', -1, stored) →
      ∀ p d, ((k'.allPcbs p).fdt d).fileBytesRead = ((k.allPcbs p).fdt d).fileBytesRead
  | _ => True

/-- No read of a negative number of bytes from a regular file. -/
def ReadsForward (k : Kernel) : Call → Prop
  | .read fd buf nbytes => ReadsFile k fd → buf ≠ none → 0 ≤ nbytes
  | _ => True

/-- A call whose number of bytes, if it has one, is an `int32_t`. -/
def Call.Int32 : Call → Prop
  | .read _ _ nbytes | .write _ _ nbytes => -2147483648 ≤ nbytes ∧ nbytes < 2147483648
  | _ => True

def Int32Step (k : Kernel) (c : Call) (k' : Kernel) : Prop := c.Int32 ∧ CallStep k c k'

/-- The open files of a kernel booted from an image. -/
structure OpenFilesOk (files : List File) (inodes blocks : Nat) (k : Kernel) : Prop where
  files : FilesOk files inodes blocks k
  held : OpenSlots (HasFile k.fs) k

section Positions

variable {files : List File} {inodes blocks : Nat} {k k' : Kernel}

private theorem callStep_openFilesOk {c : Call} (h : OpenFilesOk files inodes blocks k) (hstep : CallStep k c k') :
    OpenFilesOk files inodes blocks k' where
  files := callStep_filesOk h.files hstep
  held := by
    obtain ⟨n, hn⟩ := callStep_fs h.files.slots hstep
    have hheld : OpenSlots (HasFile k.fs) k' := by
      refine callStep_openSlots h.held h.files.slots ?_ ?_ ?_ hstep
      · intro e hfop hfile
        rw [hfop] at hfile
        cases hfile
      · intro i e hi _ hinode hmatch hfile
        rw [h.files.layout.dirCount h.files.mounted] at hi
        have hget : files[i]? = some files[i] := List.getElem?_eq_getElem hi
        -- the entry is that of a regular file of the image, as its type has selected the operations
        have htype := (h.files.layout.dentry h.files.mounted hget).2.1
        have hregular : files[i].filetype = 2 := by
          rcases hmatch with ⟨-, hfop⟩ | ⟨-, hfop⟩ | ⟨htwo, -⟩
          · rw [hfile] at hfop
            cases hfop
          · rw [hfile] at hfop
            cases hfop
          · omega
        rw [hinode]
        exact ⟨_, h.files.layout.holds h.files.mounted hget hregular⟩
      · rintro fd buf nbytes rfl hexists
        cases hstep with
        | read hread =>
          obtain ⟨⟨m, hfdt⟩, -⟩ := sysRead_position h.files.slots hread
          rw [hfdt, Function.update_self] at hexists ⊢
          exact h.held.running hexists
    intro p hp d hd hfop
    obtain ⟨contents, hcontents⟩ := hheld p hp d hd hfop
    exact ⟨contents, hn ▸ hcontents.currDir n⟩

/-- A read of `nbytes ≥ 0` from a regular file stays inside it and returns no error. -/
private theorem sysRead_forward (h : OpenFilesOk files inodes blocks k) (hq : PositionsOk k) {fd nbytes r : Int}
    {buf : Nat → UInt8} {stored : List UInt8} (hfile : ReadsFile k fd) (hn : 0 ≤ nbytes) (hmax : nbytes < 2147483648)
    (hread : sysRead k fd (some buf) nbytes = some (k', r, stored)) :
    0 ≤ r ∧ PositionOk k.fs (k'.fdt (fdIndex fd)) := by
  have hexists := hfile.1.exists
  obtain ⟨contents, hcontents⟩ := h.held.running hexists hfile.2
  have hposition := hq.running hexists hfile.2
  rw [hcontents.length] at hposition
  have hspec := fileRead_spec hcontents hposition hn hmax
  rw [sysRead_file hfile, hspec] at hread
  simp only [Option.some.injEq, Prod.mk.injEq] at hread
  obtain ⟨rfl, rfl, -⟩ := hread
  refine ⟨Int.natCast_nonneg _, fun _ => ?_⟩
  rw [setFd_fdt, Function.update_self]
  dsimp only
  rw [hcontents.length, List.length_take, List.length_drop]
  have hsize := hcontents.size
  -- no wrap around: a file has at most 1023 blocks
  have hle : (k.fdt (fdIndex fd)).fileBytesRead + min nbytes.toNat
      (contents.length - (k.fdt (fdIndex fd)).fileBytesRead) ≤
      contents.length := by omega
  refine le_trans (le_of_eq ?_) hle
  rw [← Nat.cast_add]
  exact toUInt32_of_mem (by omega)

/-- A read of `nbytes < 0` returns -1 and moves the position. -/
private theorem sysRead_backward {fd nbytes : Int} {buf : Nat → UInt8} (hfile : ReadsFile k fd) (hn : nbytes < 0) :
    ∃ k', sysRead k fd (some buf) nbytes = some (k', -1, []) ∧ k'.pidCounter = k.pidCounter ∧
      (k'.fdt (fdIndex fd)).fileBytesRead ≠ (k.fdt (fdIndex fd)).fileBytesRead := by
  have hfail : fileRead k.fs (k.fdt (fdIndex fd)).inode (k.fdt (fdIndex fd)).fileBytesRead nbytes = (-1, []) := by
    unfold fileRead
    rw [if_pos hn]
  rw [sysRead_file hfile, hfail]
  refine ⟨_, rfl, rfl, ?_⟩
  rw [setFd_fdt, Function.update_self]
  dsimp only
  generalize (k.fdt (fdIndex fd)).fileBytesRead = position
  unfold toUInt32
  omega

/-- A read that is no such read keeps the position of its descriptor right, and moves nothing if it fails. -/
private theorem sysRead_positions (h : OpenFilesOk files inodes blocks k) (hq : PositionsOk k) {fd nbytes r : Int}
    {buf : Ptr} {stored : List UInt8} (hforward : ReadsFile k fd → buf ≠ none → 0 ≤ nbytes) (hmax : nbytes < 2147483648)
    (hread : sysRead k fd buf nbytes = some (k', r, stored)) :
    ((k'.fdt (fdIndex fd)).exists_ = true → PositionOk k.fs (k'.fdt (fdIndex fd))) ∧
      (r = -1 → k'.allPcbs = k.allPcbs) := by
  by_cases hfile : ReadsFile k fd ∧ buf ≠ none
  · obtain ⟨hfile, hbuf⟩ := hfile
    have hn := hforward hfile hbuf
    obtain ⟨b, rfl⟩ := Option.ne_none_iff_exists'.1 hbuf
    obtain ⟨hpos, hposition⟩ := sysRead_forward h hq hfile hn hmax hread
    exact ⟨fun _ => hposition, fun hfail => by omega⟩
  · -- only a read of a regular file moves a position
    obtain ⟨hcalls, hpcbs⟩ := sysRead_other hfile hread
    refine ⟨fun hexists => ?_, fun _ => hpcbs⟩
    rw [Kernel.fdt, hpcbs, hcalls.pidCounter] at hexists ⊢
    exact hq.running hexists

/-- One call keeps the positions right exactly when it is no read of a negative number of bytes. -/
private theorem int32Step_positions_iff {c : Call} (h : OpenFilesOk files inodes blocks k) (hq : PositionsOk k)
    (hstep : Int32Step k c k') : (PositionsOk k' ∧ ErrorKeeps k c) ↔ ReadsForward k c := by
  obtain ⟨hint, hstep⟩ := hstep
  constructor
  · rintro ⟨-, hkeeps⟩
    cases c with
    | read fd buf nbytes =>
      intro hfile hbuf
      obtain ⟨b, rfl⟩ := Option.ne_none_iff_exists'.1 hbuf
      by_contra hn
      obtain ⟨k₁, hread, hpid, hmoved⟩ := sysRead_backward hfile (not_le.1 hn)
      have hsame := hkeeps k₁ [] hread k.pidCounter (fdIndex fd)
      rw [← hpid] at hsame
      exact hmoved (by rw [Kernel.fdt, hsame, hpid, Kernel.fdt])
    | execute | halt | open_ | close | write | finishHalt | interrupt => trivial
  · intro hc
    obtain ⟨n, hn⟩ := callStep_fs h.files.slots hstep
    have hok : OpenSlots (PositionOk k.fs) k' := by
      refine callStep_openSlots hq h.files.slots ?_ ?_ ?_ hstep
      · intro e hfop hfile
        rw [hfop] at hfile
        cases hfile
      · intro i e _ hposition _ _ _
        rw [hposition]
        exact Nat.zero_le _
      · rintro fd buf nbytes rfl hexists
        cases hstep with
        | read hread => exact (sysRead_positions h hq hc hint.2 hread).1 hexists
    refine ⟨by rw [PositionsOk, hn]; exact hok, ?_⟩
    cases c with
    | read fd buf nbytes =>
      intro k₁ stored hread p d
      rw [(sysRead_positions h hq hc hint.2 hread).2 rfl]
    | execute | halt | open_ | close | write | finishHalt | interrupt => trivial

end Positions

/-! ### Runs -/

/-- The positions in open files.  Boot with an image of the files and let the first shell be launched.  Along every run
of calls without a read of a negative number of bytes from a regular file, the positions are right; and from there a
call keeps them right, and moves none if it is a read that returns -1, exactly when it is not such a read. -/
theorem file_positions_iff {b : Boot} {files : List File} {inodes blocks : Nat} {frame execFrame : Frame} {eip : Int}
    {calls : List Call} {k : Kernel} (hlayout : Layout b.image files inodes blocks)
    (hlaunch : (pitHandler (entry b) frame execFrame).2 = .launched eip)
    (hrun : Run (Guarded ReadsForward Int32Step) (pitHandler (entry b) frame execFrame).1 calls k) :
    PositionsOk k ∧ ∀ c k', Int32Step k c k' → ((PositionsOk k' ∧ ErrorKeeps k c) ↔ ReadsForward k c) := by
  have hstart := firstShell_filesOk hlayout hlaunch
  -- the first shell has only the terminal's slots
  have hnone : ∀ P : FdTable → Prop, (∀ e, e.fop_ = .terminal → P e) →
      OpenSlots P (pitHandler (entry b) frame execFrame).1 := by
    intro P hterminal p hp d hd
    obtain ⟨fdt, hnew⟩ := (firstShell_fdt hlaunch).2 p hp
    rw [hnew] at hd ⊢
    exact hterminal _ (initFdt_terminal hd)
  have hk : OpenFilesOk files inodes blocks k ∧ PositionsOk k := by
    refine Run.invariant (P := fun k => OpenFilesOk files inodes blocks k ∧ PositionsOk k) ?_ hrun ?_
    · rintro k c k' ⟨hk, hq⟩ ⟨hc, hstep⟩
      exact ⟨callStep_openFilesOk hk hstep.2, ((int32Step_positions_iff hk hq hstep).2 hc).1⟩
    · refine ⟨⟨hstart, hnone _ ?_⟩, hnone _ ?_⟩ <;>
      · intro e hfop hfile
        rw [hfop] at hfile
        cases hfile
  exact ⟨hk.2, fun c k' hstep => int32Step_positions_iff hk.1 hk.2 hstep⟩

/-- The first shell opens its own file. -/
theorem shellOpened_positions :
    PositionsOk shellOpened ∧
      ∀ c k', Int32Step shellOpened c k' →
        ((PositionsOk k' ∧ ErrorKeeps shellOpened c) ↔ ReadsForward shellOpened c) := by
  have hlaunch : (pitHandler (entry shellBoot) frame₀ frame₀).2 = .launched 0x8048000 := by decide +kernel
  have hrun : Run (Guarded ReadsForward Int32Step) firstShell [.open_ (cString (asBytes "shell"))] shellOpened :=
    Run.single ⟨trivial, trivial, .open_ firstShell_open⟩
  exact file_positions_iff shellImage_layout hlaunch hrun

/-- It then reads -1 bytes: the read returns -1, and the position in the file of 28 bytes is `2^32 - 1`. -/
theorem negative_read_moves_position :
    ∃ k', Run Int32Step firstShell [.open_ (cString (asBytes "shell")), .read 2 (some fun _ => 0) (-1)] k' ∧
      sysRead shellOpened 2 (some fun _ => 0) (-1) = some (k', -1, []) ∧ (k'.fdt 2).fileBytesRead = 4294967295 ∧
      ¬PositionsOk k' ∧ ¬ErrorKeeps shellOpened (.read 2 (some fun _ => 0) (-1)) := by
  let read := (sysRead shellOpened 2 (some fun _ => 0) (-1)).getD (shellOpened, 0, [])
  have hread : sysRead shellOpened 2 (some fun _ => 0) (-1) = some (read.1, -1, []) := by
    have hresult : read.2 = (-1, []) := by decide +kernel
    exact eq_some_of_getD (by decide +kernel) hresult
  have hposition : (read.1.fdt 2).fileBytesRead = 4294967295 := by decide +kernel
  have hrun : Run Int32Step firstShell ([] ++ [.open_ (cString (asBytes "shell"))] ++ [.read 2 (some fun _ => 0) (-1)])
      read.1 := .snoc (.snoc (.nil _) ⟨trivial, .open_ firstShell_open⟩) ⟨⟨by decide, by decide⟩, .read hread⟩
  refine ⟨read.1, hrun, hread, hposition, ?_, ?_⟩
  · intro hq
    have hopen : (read.1.fdt 2).exists_ = true ∧ (read.1.fdt 2).fop_ = .file ∧
        read.1.fs.word (1024 * (1 + (read.1.fdt 2).inode)) = 28 := by decide +kernel
    have hle := hq.running hopen.1 hopen.2.1
    rw [hposition, hopen.2.2] at hle
    omega
  · intro hkeeps
    have hsame := hkeeps read.1 [] hread 0 2
    have hmoved : ((read.1.allPcbs 0).fdt 2).fileBytesRead ≠ ((shellOpened.allPcbs 0).fdt 2).fileBytesRead := by
      decide +kernel
    exact hmoved hsame

end BigChungOS
