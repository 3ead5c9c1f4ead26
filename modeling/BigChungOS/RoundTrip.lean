import BigChungOS.Lib.Reader
import BigChungOS.Descriptors
import BigChungOS.FileImage

/-!
# What a process reads from a file

To a process, an open descriptor of a regular file is a reader of the file's contents (`ReadsAt`): it starts at the
first byte, a read takes the next chunk, and nothing done through other descriptors moves it.  So however the opening,
reading and closing of descriptors interleave, the chunks read through one opening are, put together, a prefix of the
file as the image has it (`file_round_trip`).
-/

namespace BigChungOS

open Memory Transition Reading

/-! ### The file system of a run -/

/-- No call changes more of the file system than the position in the directory. -/
theorem callStep_fs {k k' : Kernel} {c : Call} (h : SlotsOk k) (hstep : CallStep k c k') :
    ∃ n, k'.fs = { k.fs with currDir := n } := by
  have hsame : ∀ k' : Kernel, k'.fs = k.fs → ∃ n, k'.fs = { k.fs with currDir := n } :=
    fun _ hfs => ⟨k.fs.currDir, hfs⟩
  cases hstep with
  | execute => exact hsame _ (sysExecute_sameDevices k _ _).fs
  | halt => exact sysHalt_fs k _ _
  | open_ hopen => exact (sysOpen_callsOnly h hopen).fs
  | close => exact (sysClose_filesOnly k _).fs
  | read hread => exact (sysRead_position h hread).2.1.fs
  | write hwrite => exact (sysWrite_pcbs hwrite).1.fs
  | finishHalt => exact hsame _ (haltReturn_spec k _).fs
  | interrupt hinterrupt => exact hsame _ hinterrupt.fs

private theorem entry_mounted (b : Boot) : Mounted (entry b).fs := by
  rw [entry_fs]
  exact dirOpen_mounted rfl rfl

private theorem entry_image (b : Boot) : (entry b).fs.image = b.image := by
  rw [entry_fs]
  rfl

/-- The descriptor tables are right, and the file system is that of an image of the files. -/
structure FilesOk (files : List File) (inodes blocks : Nat) (k : Kernel) : Prop where
  slots : SlotsOk k
  layout : Layout k.fs.image files inodes blocks
  mounted : Mounted k.fs

section Files

variable {files : List File} {inodes blocks : Nat}

theorem callStep_filesOk {k k' : Kernel} {c : Call} (h : FilesOk files inodes blocks k) (hstep : CallStep k c k') :
    FilesOk files inodes blocks k' := by
  obtain ⟨n, hn⟩ := callStep_fs h.slots hstep
  refine ⟨callStep_slotsOk h.slots hstep, ?_, ?_⟩
  · rw [hn]
    exact h.layout
  · rw [hn]
    exact h.mounted.currDir n

/-- Boot from an image of the files, up to the launch of the first shell. -/
theorem firstShell_filesOk {b : Boot} {frame execFrame : Frame} {eip : Int}
    (hlayout : Layout b.image files inodes blocks)
    (hlaunch : (pitHandler (entry b) frame execFrame).2 = .launched eip) :
    FilesOk files inodes blocks (pitHandler (entry b) frame execFrame).1 := by
  have hmounted := entry_mounted b
  rw [← entry_image b] at hlayout
  have htypes : ∀ i < (entry b).fs.bootBlockMain.dirCount, ((entry b).fs.bootBlockMain.direntries i).filetype = 0 ∨
      ((entry b).fs.bootBlockMain.direntries i).filetype = 1 ∨
      ((entry b).fs.bootBlockMain.direntries i).filetype = 2 := by
    intro i hi
    rw [hlayout.dirCount hmounted] at hi
    have htype := (hlayout.dentry hmounted (List.getElem?_eq_getElem hi)).2.1
    have hle := files[i].filetypeLe
    omega
  refine ⟨firstShell_slotsOk hlaunch htypes, ?_, ?_⟩
  · rw [pitHandler_fs]
    exact hlayout
  · rw [pitHandler_fs]
    exact hmounted

/-- Any calls leave the file system of the boot. -/
theorem calls_filesOk {k k' : Kernel} {calls : List Call} (h : FilesOk files inodes blocks k)
    (hcalls : Run CallStep k calls k') : FilesOk files inodes blocks k' :=
  Run.invariant (P := FilesOk files inodes blocks) (fun _ _ _ hk hstep => callStep_filesOk hk hstep) hcalls h

end Files

/-! ### Calls on the descriptors of one process -/

inductive FileEvent
  | open_ (filename : Nat → UInt8) (result : Int)
  | read (fd : Int) (buf : Ptr) (nbytes result : Int) (stored : List UInt8)
  | close (fd result : Int)
  | interrupt

/-- A call that returns `result`; a read also stores `stored` in the buffer. -/
inductive FileStep : Kernel → FileEvent → Kernel → Prop
  | open_ {k k' : Kernel} {filename : Nat → UInt8} {result : Int} (h : sysOpen k filename = some (k', result)) :
      FileStep k (.open_ filename result) k'
  | read {k k' : Kernel} {fd nbytes result : Int} {buf : Ptr} {stored : List UInt8} (hn : 0 ≤ nbytes)
      (hmax : nbytes < 2147483648) (h : sysRead k fd buf nbytes = some (k', result, stored)) :
      FileStep k (.read fd buf nbytes result stored) k'
  | close {k k' : Kernel} {fd result : Int} (h : sysClose k fd = (k', result)) : FileStep k (.close fd result) k'
  | interrupt {k k' : Kernel} (h : SameProcesses k k') : FileStep k .interrupt k'

/-- The reads through descriptor `fd`; one without a buffer reads nothing. -/
def FileEvent.readsOn (fd : Int) : FileEvent → List (Read UInt8)
  | .read c (some _) nbytes result stored =>
    if c = fd then [{ wanted := nbytes.toNat, count := result, chunk := stored }] else []
  | _ => []

/-- Descriptor `d` of the running process reads as `r`. -/
structure ReadsAt (d : Fin 8) (k : Kernel) (r : Reader UInt8) : Prop where
  slots : SlotsOk k
  file : ∃ inode, openFiles k.fdt d = some { fop := .file, fileType := 2, inode := inode, position := r.position } ∧
    Holds k.fs inode r.contents

section Step

variable {d : Fin 8} {k k' : Kernel} {r : Reader UInt8}

/-- A step that leaves descriptor `d` as it is. -/
theorem ReadsAt.keep (h : ReadsAt d k r) (hslots : SlotsOk k') (hfs : ∃ n, k'.fs = { k.fs with currDir := n })
    (hd : k'.fdt d = k.fdt d) : ReadsAt d k' r where
  slots := hslots
  file := by
    obtain ⟨inode, hopen, hholds⟩ := h.file
    obtain ⟨n, hn⟩ := hfs
    refine ⟨inode, ?_, ?_⟩
    · rw [← hopen, openFiles, openFiles, hd]
    · rw [hn]
      exact hholds.currDir n

/-- The slot of the descriptor. -/
theorem ReadsAt.slot (h : ReadsAt d k r) : 2 ≤ d.val ∧ (k.fdt d).exists_ = true ∧ (k.fdt d).fop_ = .file ∧
    (k.fdt d).fileBytesRead = r.position ∧ (k.fdt d).fileType = 2 ∧ Holds k.fs (k.fdt d).inode r.contents := by
  obtain ⟨inode, hopen, hholds⟩ := h.file
  unfold openFiles at hopen
  split at hopen
  · next hexists =>
    simp only [Option.some.injEq, Descriptor.mk.injEq] at hopen
    obtain ⟨hfop, htype, hinode, hposition⟩ := hopen
    refine ⟨?_, hexists, hfop, hposition, htype, hinode.symm ▸ hholds⟩
    by_contra hstd
    have hterminal := (h.slots.running.std d (by omega)).2
    rw [hfop] at hterminal
    cases hterminal
  · cases hopen

theorem fdIndex_eq_iff {fd : Int} (h : 0 ≤ fd ∧ fd < 8) : fdIndex fd = d ↔ fd = d.val := by
  have hval := fdIndex_val h
  constructor
  · rintro rfl
    exact hval.symm
  · intro hfd
    exact Fin.ext (by omega)

/-- A read through the descriptor is a read of the reader. -/
theorem ReadsAt.read (h : ReadsAt d k r) {buf : Nat → UInt8} {nbytes result : Int} {stored : List UInt8}
    (hn : 0 ≤ nbytes) (hmax : nbytes < 2147483648)
    (hread : sysRead k d.val (some buf) nbytes = some (k', result, stored)) :
    stored = r.chunk nbytes.toNat ∧ result = stored.length ∧ ReadsAt d k' (r.next nbytes.toNat) := by
  obtain ⟨htwo, hexists, hfop, hposition, htype, hholds⟩ := h.slot
  have hslots := (sysRead_position h.slots hread).2.2
  have hfs := (sysRead_position h.slots hread).2.1.fs
  have hindex : fdIndex d.val = d := (fdIndex_eq_iff ⟨by omega, by omega⟩).2 rfl
  have hrange : ¬((d.val : Int) < 0 ∨ (d.val : Int) ≥ 8 ∨ (d.val : Int) = 1) := by omega
  have hfile := fileRead_spec hholds r.bound hn hmax
  simp only [sysRead, hrange, hindex, hexists, hfop, fopRead, fileReadHelper, hposition, hfile, if_true,
    if_false, Bool.true_eq_false, Option.some.injEq, Prod.mk.injEq] at hread
  obtain ⟨hk', hresult, hstored⟩ := hread
  have hchunk : stored = r.chunk nbytes.toNat := hstored.symm
  have hlength : result = stored.length := by rw [← hresult, ← hstored]
  refine ⟨hchunk, hlength, hslots, (k.fdt d).inode, ?_, ?_⟩
  · -- the position cannot wrap around
    have hnext : toUInt32 ((r.position : Int) + (r.chunk nbytes.toNat).length) = (r.next nbytes.toNat).position := by
      have hbound := (r.next nbytes.toNat).bound
      have hsize := hholds.size
      have hcast : ((r.position : Int) + (r.chunk nbytes.toNat).length) = ((r.next nbytes.toNat).position : Int) := rfl
      rw [hcast]
      refine toUInt32_of_mem ?_
      exact lt_of_le_of_lt (hbound.trans hsize) (by norm_num)
    rw [← hk', setFd_fdt, openFiles]
    simp only [Function.update_self, hexists, hfop, hposition, htype, if_true]
    rw [← hnext]
    rfl
  · obtain ⟨n, hn'⟩ := hfs
    rw [hn']
    exact hholds.currDir n

/-- An open fails, or takes another descriptor. -/
theorem ReadsAt.open_ (h : ReadsAt d k r) {filename : Nat → UInt8} {result : Int}
    (hcall : sysOpen k filename = some (k', result)) : ReadsAt d k' r := by
  obtain ⟨-, rfl⟩ | ⟨i, c, -, -, hopens, hslots⟩ := h.slots.sysOpen_cases hcall
  · exact h
  · have hne : d ≠ c := by
      rintro rfl
      obtain ⟨inode, hfile, -⟩ := h.file
      rw [hopens.least.2.1] at hfile
      cases hfile
    exact h.keep hslots hopens.only.fs (hopens.records d hne)

/-- A read through another descriptor. -/
private theorem ReadsAt.readOther (h : ReadsAt d k r) {fd nbytes result : Int} (hfd : fd ≠ d.val)
    {buf : Option (Nat → UInt8)} {stored : List UInt8} (hcall : sysRead k fd buf nbytes = some (k', result, stored)) :
    ReadsAt d k' r := by
  obtain ⟨⟨n, hfdt⟩, hcalls, hslots⟩ := sysRead_position h.slots hcall
  by_cases hreadable : Readable k fd
  · have hne : d ≠ fdIndex fd := fun heq => hfd ((fdIndex_eq_iff ⟨hreadable.1, hreadable.2.1⟩).1 heq.symm)
    refine h.keep hslots hcalls.fs ?_
    rw [hfdt, Function.update_of_ne hne]
  · rw [sysRead_fails (fun hboth => hreadable hboth.1), Option.some.injEq, Prod.mk.injEq] at hcall
    rw [← hcall.1]
    exact h

/-- A close fails, or closes another descriptor. -/
theorem ReadsAt.close (h : ReadsAt d k r) {fd : Int} (hother : (sysClose k fd).2 = 0 → fd ≠ d.val) :
    ReadsAt d (sysClose k fd).1 r := by
  by_cases hc : Closable k fd
  · obtain ⟨hret, hfdt⟩ := sysClose_fdt h.slots.running hc
    have hne : d ≠ fdIndex fd := by
      intro heq
      have hfd := (fdIndex_eq_iff ⟨by have := hc.1; omega, hc.2.1⟩).1 heq.symm
      exact hother hret hfd
    refine h.keep (sysClose_slotsOk h.slots fd) (sysClose_filesOnly k fd).fs ?_
    rw [hfdt, Function.update_of_ne hne]
  · rw [sysClose_fails hc]
    exact h

/-- One step, followed by the reader. -/
private theorem fileStep_reads {e : FileEvent} (h : ReadsAt d k r) (hopen : e ≠ .close d.val 0)
    (hstep : FileStep k e k') : ∃ r', Run Reads r (e.readsOn d.val) r' ∧ ReadsAt d k' r' := by
  cases hstep with
  | open_ hcall => exact ⟨r, Run.nil r, h.open_ hcall⟩
  | @read _ fd nbytes result buf stored hn hmax hcall =>
    by_cases hfd : fd = d.val
    · subst hfd
      cases buf with
      | none =>
        simp only [sysRead, Option.some.injEq, Prod.mk.injEq] at hcall
        rw [← hcall.1]
        exact ⟨r, Run.nil r, h⟩
      | some buf =>
        obtain ⟨hchunk, hresult, hnext⟩ := h.read hn hmax hcall
        refine ⟨r.next nbytes.toNat, ?_, hnext⟩
        simp only [FileEvent.readsOn, if_true]
        exact Run.single ⟨hchunk, hresult, rfl⟩
    · have hnone : FileEvent.readsOn d.val (.read fd buf nbytes result stored) = [] := by
        cases buf <;> simp [FileEvent.readsOn, hfd]
      rw [hnone]
      exact ⟨r, Run.nil r, h.readOther hfd hcall⟩
  | @close _ fd result hcall =>
    refine ⟨r, Run.nil r, ?_⟩
    have hk' : k' = (sysClose k fd).1 := by rw [hcall]
    rw [hk']
    apply h.close
    rintro hret rfl
    rw [hcall] at hret
    exact hopen (congrArg _ hret)
  | interrupt hsame =>
    refine ⟨r, Run.nil r, ?_⟩
    refine h.keep (hsame.slotsOk h.slots) ⟨k.fs.currDir, hsame.fs⟩ ?_
    rw [Kernel.fdt, hsame.pidCounter, hsame.fdt, Kernel.fdt]

/-- Opening a regular file gives a reader at its first byte. -/
theorem sysOpen_readsAt {files : List File} {inodes blocks : Nat} {f : File} {filename : Nat → UInt8} {fd : Int}
    (hlayout : Layout k.fs.image files inodes blocks) (hmounted : Mounted k.fs) (hslots : SlotsOk k) (hf : f ∈ files)
    (hregular : f.filetype = 2) (hname : SameName (cString f.name) filename 32)
    (hcall : sysOpen k filename = some (k', fd)) (hfd : fd ≠ -1) :
    ∃ d : Fin 8, fd = d.val ∧ ReadsAt d k' (Reader.start f.contents) := by
  obtain ⟨hfail, -⟩ | ⟨i, d, rfl, hnames, hopens, hslots'⟩ := hslots.sysOpen_cases hcall
  · exact absurd hfail hfd
  have hget := hlayout.names_eq hmounted hnames hf hname
  obtain ⟨-, htype, -⟩ := hlayout.dentry hmounted hget
  have hholds := hlayout.holds hmounted hget hregular
  obtain ⟨fop, hmatch, hadded⟩ := hopens.added
  rw [hregular] at htype
  refine ⟨d, rfl, hslots', (k.fs.bootBlockMain.direntries i).inodeNum, ?_, ?_⟩
  · have hfop : fop = .file := by
      rcases hmatch with ⟨hzero, -⟩ | ⟨hone, -⟩ | ⟨-, hfile⟩
      · rw [htype] at hzero
        cases hzero
      · rw [htype] at hone
        cases hone
      · exact hfile
    rw [hadded, Function.update_self, hfop, htype]
    rfl
  · obtain ⟨n, hn⟩ := hopens.only.fs
    rw [hn]
    exact hholds.currDir n

end Step

/-! ### Runs -/

/-- What the calls `after` the opening of `fd` have read of the contents. -/
structure ReadThrough (fd : Int) (contents : List UInt8) (after : List FileEvent) (k : Kernel) : Prop where
  chunks : ((after.flatMap (FileEvent.readsOn fd)).map Read.chunk).flatten =
    contents.take (min ((after.flatMap (FileEvent.readsOn fd)).map Read.wanted).sum contents.length)
  counts : ∀ e ∈ after.flatMap (FileEvent.readsOn fd), e.count = e.chunk.length
  finished : contents.length ≤ ((after.flatMap (FileEvent.readsOn fd)).map Read.wanted).sum →
    ∀ buf nbytes result stored k', FileStep k (.read fd (some buf) nbytes result stored) k' → result = 0 ∧ stored = []

/-- Files read back.  Boot with an image of the files, let the first shell be launched and any calls follow: `k₀` is any
state with a running process, since every process descends from that shell.  When the process then opens a regular
file, all it reads through that descriptor before closing it is a prefix of the file's contents, whatever it opens,
reads and closes besides. -/
theorem file_round_trip {b : Boot} {files : List File} {inodes blocks : Nat} {frame execFrame : Frame} {eip : Int}
    {calls : List Call} {after : List FileEvent} {k₀ k : Kernel} {f : File} {filename : Nat → UInt8} {fd : Int}
    (hlayout : Layout b.image files inodes blocks)
    (hlaunch : (pitHandler (entry b) frame execFrame).2 = .launched eip)
    (hcalls : Run CallStep (pitHandler (entry b) frame execFrame).1 calls k₀)
    (hrun : Run FileStep k₀ ([.open_ filename fd] ++ after) k) (hf : f ∈ files) (hregular : f.filetype = 2)
    (hname : SameName (cString f.name) filename 32) (hfd : fd ≠ -1) (hopen : ∀ e ∈ after, e ≠ .close fd 0) :
    ReadThrough fd f.contents after k := by
  have hk₀ := calls_filesOk (firstShell_filesOk hlayout hlaunch) hcalls
  obtain ⟨k₁, hfirst, hrest⟩ := Run.append_iff.1 hrun
  have hcall : sysOpen k₀ filename = some (k₁, fd) := by
    cases Run.single_iff.1 hfirst with
    | open_ h => exact h
  obtain ⟨d, rfl, hreads⟩ := sysOpen_readsAt hk₀.layout hk₀.mounted hk₀.slots hf hregular hname hcall hfd
  have hfollow : ∀ k e k' r, ReadsAt d k r → Guarded (fun _ e => e ≠ .close d.val 0) FileStep k e k' →
      ∃ r', Run Reads r (FileEvent.readsOn d.val e) r' ∧ ReadsAt d k' r' :=
    fun _ _ _ _ h hstep => fileStep_reads h hstep.1 hstep.2
  obtain ⟨r, hreader, hr⟩ := Run.simulate hfollow (hrest.guarded hopen) hreads
  refine ⟨run_start hreader, run_counts hreader, ?_⟩
  intro hall buf nbytes result stored k' hstep
  cases hstep with
  | read hn hmax hread =>
    obtain ⟨hchunk, hresult, -⟩ := hr.read hn hmax hread
    have hread' : Reads r { wanted := nbytes.toNat, count := result, chunk := stored } (r.next nbytes.toNat) :=
      ⟨hchunk, hresult, rfl⟩
    exact run_end hreader hall hread'

/-! ### The file of the machine with one program -/

def shellFile : File where
  name := asBytes "shell"
  filetype := 2
  contents := [0x7F, 0x45, 0x4C, 0x46] ++ List.replicate 20 0 ++ [0x00, 0x80, 0x04, 0x08]
  nameLength := by decide
  nameBytes := by decide
  filetypeLe := le_refl 2
  size := by decide

theorem shellImage_layout : Layout shellImage [shellFile] 1 1 where
  count := by decide +kernel
  inodeCount := by decide +kernel
  dataCount := by decide +kernel
  atMost := by decide
  distinct := by simp
  entry i f hf := by
    have hi : i = 0 := by
      have hlt := (List.getElem?_eq_some_iff.1 hf).1
      simpa using hlt
    subst hi
    simp only [List.getElem?_cons_zero, Option.some.injEq] at hf
    subst hf
    have hinode : wordAt shellImage (64 * (0 + 1) + 36) = 0 := by decide +kernel
    refine ⟨⟨5, by decide, by decide +kernel, fun _ => by decide +kernel⟩, by decide +kernel, fun _ => ?_⟩
    rw [hinode]
    refine ⟨by decide, by decide +kernel, ?_, ?_⟩
    · intro b hb
      have hlength : shellFile.contents.length = 28 := by decide
      have hzero : b = 0 := by omega
      subst hzero
      decide +kernel
    · decide +kernel
  fits := by decide

/-- The state after the first shell has opened its own file. -/
def shellOpened : Kernel := ((sysOpen firstShell (cString (asBytes "shell"))).getD (firstShell, -1)).1

/-- The states after its two reads. -/
private def readOnce : Kernel × Int × List UInt8 :=
  (sysRead shellOpened 2 (some fun _ => 0) 10).getD (shellOpened, -1, [])
private def readTwice : Kernel × Int × List UInt8 :=
  (sysRead readOnce.1 2 (some fun _ => 0) 100).getD (shellOpened, -1, [])

theorem eq_some_of_getD {β : Type*} {o : Option (Kernel × β)} {a : Kernel × β} {r : β} (h : o.isSome = true)
    (hr : (o.getD a).2 = r) : o = some ((o.getD a).1, r) := by
  cases o with
  | none => cases h
  | some b => rw [← hr]; rfl

theorem firstShell_open : sysOpen firstShell (cString (asBytes "shell")) = some (shellOpened, 2) := by
  have hresult : ((sysOpen firstShell (cString (asBytes "shell"))).getD (firstShell, -1)).2 = 2 := by decide +kernel
  exact eq_some_of_getD (by decide +kernel) hresult

/-- The first shell reads its own file in two chunks. -/
theorem firstShell_reads_itself :
    let after : List FileEvent := [.read 2 (some fun _ => 0) 10 10 (shellFile.contents.take 10),
      .read 2 (some fun _ => 0) 100 18 (shellFile.contents.drop 10)]
    ∃ k, Run FileStep firstShell ([.open_ (cString (asBytes "shell")) 2] ++ after) k ∧
      ReadThrough 2 shellFile.contents after k := by
  intro after
  have hlaunch : (pitHandler (entry shellBoot) frame₀ frame₀).2 = .launched 0x8048000 := by decide +kernel
  have hread : sysRead shellOpened 2 (some fun _ => 0) 10 = some (readOnce.1, 10, shellFile.contents.take 10) := by
    have hresult : readOnce.2 = (10, shellFile.contents.take 10) := by decide +kernel
    exact eq_some_of_getD (by decide +kernel) hresult
  have hread' : sysRead readOnce.1 2 (some fun _ => 0) 100 = some (readTwice.1, 18, shellFile.contents.drop 10) := by
    have hresult : readTwice.2 = (18, shellFile.contents.drop 10) := by decide +kernel
    exact eq_some_of_getD (by decide +kernel) hresult
  have hreads : Run FileStep shellOpened after readTwice.1 :=
    (Run.single (.read (by omega) (by omega) hread)).append (Run.single (.read (by omega) (by omega) hread'))
  have hrun : Run FileStep firstShell ([.open_ (cString (asBytes "shell")) 2] ++ after) readTwice.1 :=
    (Run.single (.open_ firstShell_open)).append hreads
  have hname : SameName (cString shellFile.name) (cString (asBytes "shell")) 32 :=
    ⟨5, by decide, by decide, fun _ => by decide⟩
  refine ⟨readTwice.1, hrun, ?_⟩
  exact file_round_trip shellImage_layout hlaunch (.nil _) hrun (by simp) rfl hname (by decide) (by simp [after])

end BigChungOS
