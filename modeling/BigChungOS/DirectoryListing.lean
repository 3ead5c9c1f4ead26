import BigChungOS.FilePositions

/-!
# Reading a directory entry by entry

Each read of an open directory returns the name of the next entry, and 0 after the last one (`listing`).  The position
in the directory is `curr_dir`, one variable for all descriptors of all processes: every `sys_open` and `sys_close` of a
directory sets it to 0, and every read moves it.  So one opening lists the directory as long as `curr_dir` is, at each
of its reads, where its own last read left it, and a read keeps the listing right exactly then
(`directory_listing_iff`).
-/

namespace BigChungOS

open Memory Transition

/-! ### One read -/

/-- What the reads of a directory should return: the length and the characters of each name, and then 0. -/
def listing (files : List File) : List (Int × List UInt8) :=
  files.map (fun f => ((f.name.length : Int), f.name)) ++ [(0, [])]

/-- The first `files.length + 1` results are those of the listing, from its beginning on. -/
def Enumerates (files : List File) (results : List (Int × List UInt8)) : Prop :=
  results.take (files.length + 1) <+: listing files

instance (files : List File) (results : List (Int × List UInt8)) : Decidable (Enumerates files results) :=
  inferInstanceAs (Decidable (results.take (files.length + 1) <+: listing files))

private theorem listing_length (files : List File) : (listing files).length = files.length + 1 := by simp [listing]

theorem listing_last (files : List File) : (listing files)[files.length]? = some (0, []) := by
  rw [listing, List.getElem?_append_right (by simp)]
  simp

theorem listing_entry {files : List File} {i : Nat} {f : File} (hf : files[i]? = some f) :
    (listing files)[i]? = some ((f.name.length : Int), f.name) := by
  have hi : i < files.length := (List.getElem?_eq_some_iff.1 hf).1
  rw [listing, List.getElem?_append_left (by simpa using hi), List.getElem?_map, hf]
  rfl

/-- The results of different reads of the listing differ. -/
private theorem listing_nodup {files : List File} (h : (files.map File.name).Nodup) : (listing files).Nodup := by
  have hsnd : ((listing files).map Prod.snd) = files.map File.name ++ [[]] := by
    simp [listing, Function.comp_def]
  refine List.Nodup.of_map Prod.snd ?_
  rw [hsnd, List.nodup_append]
  refine ⟨h, List.nodup_singleton _, ?_⟩
  intro name hname empty hempty heq
  rw [List.mem_singleton] at hempty
  obtain ⟨f, -, rfl⟩ := List.mem_map.1 hname
  have hlen := f.nameLength.1
  rw [heq, hempty] at hlen
  simp at hlen

/-- One more result. -/
private theorem enumerates_append_iff {files : List File} {results : List (Int × List UInt8)} {x : Int × List UInt8}
    (h : Enumerates files results) :
    Enumerates files (results ++ [x]) ↔
      (results.length ≤ files.length → (listing files)[results.length]? = some x) := by
  by_cases hlen : results.length ≤ files.length
  · have htake : (results ++ [x]).take (files.length + 1) = results ++ [x] :=
      List.take_of_length_le (by rw [List.length_append]; exact Nat.add_le_add_right hlen 1)
    have hprefix : results <+: listing files := by
      have hall : results.take (files.length + 1) = results := List.take_of_length_le (by omega)
      rwa [Enumerates, hall] at h
    obtain ⟨rest, hrest⟩ := hprefix
    have hnext : (listing files)[results.length]? = rest[0]? := by
      rw [← hrest, List.getElem?_append_right (le_refl _), Nat.sub_self]
    rw [Enumerates, htake, ← hrest, List.prefix_append_right_inj, hrest, hnext]
    simp only [hlen, true_imp_iff]
    cases rest with
    | nil => simp
    | cons y rest => simp [List.cons_prefix_cons, eq_comm]
  · have htake : (results ++ [x]).take (files.length + 1) = results.take (files.length + 1) :=
      List.take_append_of_le_length (by omega)
    rw [Enumerates, htake]
    simp only [hlen, false_imp_iff, iff_true]
    exact h

/-- `dir_read` copies a name up to its end. -/
private theorem takeWhile_name {g : Nat → UInt8} {name : List UInt8} (hlen : name.length ≤ 32)
    (hname : ∀ i < name.length, g i = cString name i ∧ g i ≠ 0) (hend : name.length < 32 → g name.length = 0) :
    ((List.range 32).map g).takeWhile (· ≠ 0) = name := by
  obtain ⟨room, hroom⟩ : ∃ room, 32 = name.length + room := ⟨32 - name.length, by omega⟩
  have hspelled : (List.range name.length).map g = name := by
    apply List.ext_getElem (by simp)
    intro i hi hi'
    rw [List.getElem_map, List.getElem_range, (hname i hi').1, cString, List.getD_eq_getElem _ _ hi']
  have hnonzero : ∀ c ∈ name, decide (c ≠ 0) = true := by
    intro c hc
    rw [← hspelled] at hc
    obtain ⟨i, hi, rfl⟩ := List.mem_map.1 hc
    simpa using (hname i (List.mem_range.1 hi)).2
  rw [hroom, List.range_add, List.map_append, hspelled, List.takeWhile_append_of_pos hnonzero]
  cases room with
  | zero => simp
  | succ room =>
    have hzero := hend (by omega)
    simp [List.range_succ_eq_map, hzero]

section Entry

variable {fs : FileSystem} {files : List File} {inodes blocks : Nat}

/-- `dir_read` returns what the listing has at the position, and moves to the next one. -/
theorem dirRead_spec (h : Layout fs.image files inodes blocks) (hm : Mounted fs) (hopen : fs.dirIsOpen = true)
    (hcurr : fs.currDir ≤ files.length) :
    (listing files)[fs.currDir]? = some (dirRead fs).2 ∧
      (dirRead fs).1.currDir = if fs.currDir < files.length then fs.currDir + 1 else 0 := by
  have hle := h.atMost
  have hcount := h.dirCount hm
  have hcount' : toInt32 (files.length : Nat) = files.length := toInt32_of_mem (by omega) (by omega)
  unfold dirRead
  rw [if_neg (by simp [hopen]), hcount, hcount']
  by_cases hmore : fs.currDir < files.length
  · rw [if_pos (by omega), if_pos hmore]
    have hget : files[fs.currDir]? = some files[fs.currDir] := List.getElem?_eq_getElem hmore
    have hentry := (h.dentry hm hget).1
    obtain ⟨hname, hend⟩ := hentry.spells files[fs.currDir].nameBytes files[fs.currDir].nameLength.2
    generalize hf : files[fs.currDir] = f at hget hname hend
    -- `read_dentry_by_index` copies the name with `strncpy`, and `dir_read` takes it up to its end
    have hcopied : ∀ i < 32, (readDentryByIndex fs fs.currDir emptyDentry).1.filename i =
        (if (List.range (i + 1)).all ((fs.bootBlockMain.direntries fs.currDir).filename · ≠ 0) then
          (fs.bootBlockMain.direntries fs.currDir).filename i else 0) := by
      intro i hi
      simp only [readDentryByIndex, if_pos (hcount ▸ hmore), strncpy, if_pos hi]
    generalize (fs.bootBlockMain.direntries fs.currDir).filename = filename at hname hend hcopied
    have hstored : ((List.range 32).map (readDentryByIndex fs fs.currDir emptyDentry).1.filename).takeWhile (· ≠ 0) =
        f.name := by
      refine takeWhile_name f.nameLength.2 ?_ ?_
      · intro i hi
        have hall : (List.range (i + 1)).all (filename · ≠ 0) = true := by
          rw [List.all_eq_true]
          intro j hj
          simpa using (hname j (by have := List.mem_range.1 hj; omega)).2
        rw [hcopied i (by have := f.nameLength.2; omega), if_pos hall]
        exact hname i hi
      · intro hlt
        rw [hcopied _ hlt]
        split
        · exact hend hlt
        · rfl
    dsimp only
    rw [hstored]
    exact ⟨listing_entry hget, rfl⟩
  · have hend : fs.currDir = files.length := by omega
    rw [if_neg (by omega), if_neg hmore]
    dsimp only
    rw [hend]
    exact ⟨listing_last files, rfl⟩

end Entry

/-! ### What the calls do to the position -/

section Calls

variable {k k' : Kernel}

private theorem sysClose_currDir (k : Kernel) (fd : Int) :
    (sysClose k fd).1.fs.currDir = k.fs.currDir ∨ (sysClose k fd).1.fs.currDir = 0 := by
  have hfop : ∀ d fop, (fopClose k d fop).fs.currDir = k.fs.currDir ∨ (fopClose k d fop).fs.currDir = 0 := by
    intro d fop
    cases fop with
    | dir => exact .inr rfl
    | file =>
      left
      simp only [fopClose, fileCloseHelper]
      split <;> rfl
    | rtc | terminal | null => exact .inl rfl
  unfold sysClose
  dsimp only
  split
  · exact .inl rfl
  · split
    · exact hfop _ _
    · exact .inl rfl

private theorem released_currDir (k : Kernel) :
    (released k).fs.currDir = k.fs.currDir ∨ (released k).fs.currDir = 0 := by
  have key : ∀ (l : List Int) (k : Kernel), (l.foldl (fun k fd => (sysClose k fd).1) k).fs.currDir = k.fs.currDir ∨
      (l.foldl (fun k fd => (sysClose k fd).1) k).fs.currDir = 0 := by
    intro l
    induction l with
    | nil => exact fun _ => .inl rfl
    | cons fd l ih =>
      intro k
      rw [List.foldl_cons]
      rcases ih (sysClose k fd).1 with hsame | hzero
      · rw [hsame]
        exact sysClose_currDir k fd
      · exact .inr hzero
  exact key _ k

theorem dirOpen_currDir (fs : FileSystem) (hopen : fs.dirIsOpen = true) (filename : Nat → UInt8) :
    (dirOpen fs filename).1.currDir = if filename 0 = 0x2E then 0 else fs.currDir := by
  unfold dirOpen
  by_cases hname : filename 0 = 0x2E
  · simp [hname, hopen]
  · simp [hname]

private theorem sysOpen_currDir {filename : Nat → UInt8} {r : Int} (hdir : k.fs.dirIsOpen = true)
    (hopen : sysOpen k filename = some (k', r)) : k'.fs.currDir = k.fs.currDir ∨ k'.fs.currDir = 0 := by
  rcases sysOpen_cases hopen with rfl | ⟨d, f, ⟨c, rfl⟩ | rfl⟩
  · exact .inl rfl
  · exact .inl rfl
  · have hcurr := dirOpen_currDir k.fs hdir filename
    split_ifs at hcurr
    · exact .inr hcurr
    · exact .inl hcurr

private theorem sysRead_fs {fd nbytes r : Int} {buf : Ptr} {stored : List UInt8}
    (hread : sysRead k fd buf nbytes = some (k', r, stored)) : k'.fs = k.fs ∨ k'.fs = (dirRead k.fs).1 := by
  rcases sysRead_cases hread with ⟨c, rfl⟩ | rfl | ⟨d, f, rfl⟩ | rfl
  · exact .inl rfl
  · exact .inr rfl
  · exact .inl rfl
  · exact .inl rfl

private theorem sysWrite_fs {fd nbytes r : Int} {buf : Ptr} (hwrite : sysWrite k fd buf nbytes = some (k', r)) :
    k'.fs = k.fs := by
  rcases sysWrite_cases hwrite with ⟨c, rfl⟩ | ⟨s, rfl⟩
  · rfl
  · rw [puts_eq]

private theorem dirRead_currDir {fs : FileSystem} (h : fs.currDir ≤ fs.bootBlockMain.dirCount) :
    (dirRead fs).1.currDir ≤ fs.bootBlockMain.dirCount := by
  unfold dirRead
  split_ifs with _ hmore
  · exact h
  · have hle : toInt32 (fs.bootBlockMain.dirCount : Nat) ≤ fs.bootBlockMain.dirCount := by
      unfold toInt32
      omega
    dsimp only
    omega
  · exact Nat.zero_le _

/-- The position never passes the last entry. -/
theorem callStep_currDir {c : Call} (hslots : SlotsOk k) (h : k.fs.currDir ≤ k.fs.bootBlockMain.dirCount)
    (hstep : CallStep k c k') : k'.fs.currDir ≤ k.fs.bootBlockMain.dirCount := by
  have hcases : ∀ fs : FileSystem, fs.currDir = k.fs.currDir ∨ fs.currDir = 0 →
      fs.currDir ≤ k.fs.bootBlockMain.dirCount := by
    rintro fs (hsame | hzero)
    · rw [hsame]
      exact h
    · rw [hzero]
      exact Nat.zero_le _
  cases hstep with
  | execute => exact hcases _ (.inl (by rw [(sysExecute_sameDevices k _ _).fs]))
  | @halt status frame =>
    have hrel := released_currDir k
    refine hcases _ ?_
    have hend := sysHalt_ended k status frame
    generalize (sysHalt k status frame).1 = k', (sysHalt k status frame).2 = res at hend ⊢
    cases hend with
    | other _ hreturn => rwa [hreturn.fs]
    | failed _ hfail hreturn => rwa [hreturn.fs, hfail.fs]
    | relaunched _ hlaunch => rwa [hlaunch.fs]
    | faulted _ hfault => rwa [hfault.fs]
  | open_ hopen => exact hcases _ (sysOpen_currDir hslots.dirIsOpen hopen)
  | close => exact hcases _ (sysClose_currDir k _)
  | read hread =>
    rcases sysRead_fs hread with hsame | hdir
    · exact hcases _ (.inl (by rw [hsame]))
    · rw [hdir]
      exact dirRead_currDir h
  | write hwrite => exact hcases _ (.inl (by rw [sysWrite_fs hwrite]))
  | finishHalt => exact hcases _ (.inl (by rw [(haltReturn_spec k _).fs]))
  | interrupt hsame => exact hcases _ (.inl (by rw [hsame.fs]))

/-! ### What the calls do to an open slot -/

/-- A descriptor table is as it was, or that of a new process. -/
def FdtKept (k k' : Kernel) (p : Fin 6) : Prop :=
  (k'.allPcbs p).fdt = (k.allPcbs p).fdt ∨ ∃ fdt, (k'.allPcbs p).fdt = initFdt fdt

theorem FdtKept.slot {p : Fin 6} {d : Fin 8} (h : FdtKept k k' p) (htwo : 2 ≤ d.val)
    (hd : ((k'.allPcbs p).fdt d).exists_ = true) : (k'.allPcbs p).fdt d = (k.allPcbs p).fdt d := by
  rcases h with hsame | ⟨fdt, hnew⟩
  · rw [hsame]
  · have hclosed : ¬d.val < 2 := by omega
    rw [hnew] at hd
    simp [initFdt, hclosed] at hd

private theorem Failed.fdtKept (h : Failed k k') (p : Fin 6) : FdtKept k k' p :=
  (h.fdt p).imp_right fun hnew => ⟨_, hnew⟩

private theorem fdtKept_of_new (hfdt : k'.fdt = initFdt (k.allPcbs k'.pidCounter).fdt)
    (hpcb : ∀ p ≠ k'.pidCounter, k'.allPcbs p = k.allPcbs p) (p : Fin 6) : FdtKept k k' p := by
  by_cases hpid : p = k'.pidCounter
  · exact .inr ⟨_, by rw [hpid]; exact hfdt⟩
  · exact .inl (by rw [hpcb p hpid])

private theorem sysExecute_fdtKept (k : Kernel) (command : Option (List UInt8)) (frame : Frame) (p : Fin 6) :
    FdtKept k (sysExecute k command frame).1 p := by
  cases hres : (sysExecute k command frame).2 with
  | error => exact (sysExecute_failed hres).fdtKept p
  | launched eip => exact fdtKept_of_new (sysExecute_launched hres).fdt (sysExecute_launched hres).pcb p
  | faulted => exact fdtKept_of_new (sysExecute_faulted hres).fdt (sysExecute_faulted hres).pcb p

private theorem sysHalt_fdtKept (k : Kernel) (status : UInt8) (frame : Frame) (p : Fin 6) :
    FdtKept (released k) (sysHalt k status frame).1 p := by
  have hend := sysHalt_ended k status frame
  generalize (sysHalt k status frame).1 = k', (sysHalt k status frame).2 = res at hend ⊢
  cases hend with
  | other _ hreturn => exact .inl (by rw [hreturn.pcbs])
  | failed _ hfail hreturn =>
    rw [FdtKept, hreturn.pcbs]
    exact hfail.fdtKept p
  | relaunched _ hlaunch => exact fdtKept_of_new hlaunch.fdt hlaunch.pcb p
  | faulted _ hfault => exact fdtKept_of_new hfault.fdt hfault.pcb p

/-- A slot that is open before and after a call is open on the same file. -/
private theorem callStep_fop {c : Call} (hslots : SlotsOk k) (hstep : CallStep k c k') {p : Fin 6} {d : Fin 8}
    (htwo : 2 ≤ d.val) (hd : ((k.allPcbs p).fdt d).exists_ = true) (hd' : ((k'.allPcbs p).fdt d).exists_ = true) :
    ((k'.allPcbs p).fdt d).fop_ = ((k.allPcbs p).fdt d).fop_ := by
  cases hstep with
  | execute => rw [(sysExecute_fdtKept k _ _ p).slot htwo hd']
  | halt =>
    have hslot := (sysHalt_fdtKept k _ _ p).slot htwo hd'
    rw [hslot] at hd' ⊢
    rw [released_slot hslots p d hd']
  | @open_ _ filename r hopen =>
    obtain ⟨-, rfl⟩ | ⟨i, e, -, -, hopens, -⟩ := hslots.sysOpen_cases hopen
    · rfl
    · by_cases hpid : p = k.pidCounter
      · have hne : d ≠ e := by
          rintro rfl
          have hclosed := openFiles_eq_none.1 hopens.least.2.1
          rw [hpid] at hd
          rw [Kernel.fdt, hd] at hclosed
          cases hclosed
        have hrecord := hopens.records d hne
        rw [Kernel.fdt, hopens.only.pidCounter, Kernel.fdt] at hrecord
        rw [hpid, hrecord]
      · rw [hopens.only.pcb p hpid]
  | close => rw [sysClose_slot k hslots.running _ p d hd']
  | @read _ fd nbytes r buf stored hread =>
    obtain ⟨⟨n, hfdt⟩, hcalls, -⟩ := sysRead_position hslots hread
    by_cases hpid : p = k.pidCounter
    · rw [Kernel.fdt, hcalls.pidCounter] at hfdt
      rw [hpid, hfdt]
      by_cases hslot : d = fdIndex fd
      · rw [hslot, Function.update_self]
        rfl
      · rw [Function.update_of_ne hslot]
        rfl
    · rw [hcalls.pcb p hpid]
  | write hwrite => rw [(sysWrite_pcbs hwrite).2]
  | finishHalt => rw [(haltReturn_spec k _).pcbs]
  | interrupt hsame => rw [hsame.fdt]

end Calls

/-! ### One opening -/

/-- The kernel while a directory is open as descriptor `d` of process `p`: the results of the reads through it so far,
and `curr_dir` as the last of them, or the `sys_open`, left it. -/
structure Listing where
  kernel : Kernel
  results : List (Int × List UInt8)
  left : Nat

/-- A read through descriptor `d` of process `p`. -/
def ReadsThrough (p : Fin 6) (d : Fin 8) (k : Kernel) : Call → Prop
  | .read fd buf _ => k.pidCounter = p ∧ fd = d.val ∧ buf ≠ none
  | _ => False

/-- A read through the descriptor, or any other call, of any process, that leaves it open. -/
inductive ListStep (p : Fin 6) (d : Fin 8) : Listing → Call → Listing → Prop
  | read {k k' : Kernel} {results : List (Int × List UInt8)} {left : Nat} {fd nbytes r : Int} {buf : Ptr}
      {stored : List UInt8} (hthrough : ReadsThrough p d k (.read fd buf nbytes))
      (h : sysRead k fd buf nbytes = some (k', r, stored)) :
      ListStep p d ⟨k, results, left⟩ (.read fd buf nbytes) ⟨k', results ++ [(r, stored)], k'.fs.currDir⟩
  | other {k k' : Kernel} {results : List (Int × List UInt8)} {left : Nat} {c : Call} (hother : ¬ReadsThrough p d k c)
      (h : CallStep k c k') (hopen : ((k'.allPcbs p).fdt d).exists_ = true) :
      ListStep p d ⟨k, results, left⟩ c ⟨k', results, left⟩

/-- Nobody has moved `curr_dir` since the last read through the descriptor, when it is read before its listing ends. -/
def CursorKept (n : Nat) (p : Fin 6) (d : Fin 8) (s : Listing) (c : Call) : Prop :=
  ReadsThrough p d s.kernel c → s.results.length ≤ n → s.kernel.fs.currDir = s.left

/-- So it is after a read through the descriptor. -/
private theorem cursorKept_self (n : Nat) (p : Fin 6) (d : Fin 8) (k : Kernel) (results : List (Int × List UInt8))
    (c : Call) : CursorKept n p d ⟨k, results, k.fs.currDir⟩ c := fun _ _ => rfl

/-- What the calls keep of an opening: the position it leaves is the number of its reads until the listing ends. -/
structure ListingOk (files : List File) (inodes blocks : Nat) (p : Fin 6) (d : Fin 8) (s : Listing) : Prop where
  fsOk : FilesOk files inodes blocks s.kernel
  slot : 2 ≤ d.val ∧ ((s.kernel.allPcbs p).fdt d).exists_ = true ∧ ((s.kernel.allPcbs p).fdt d).fop_ = .dir
  currDir : s.kernel.fs.currDir ≤ files.length
  left : s.results.length ≤ files.length → s.left = s.results.length

section Opening

variable {files : List File} {inodes blocks : Nat} {p : Fin 6} {d : Fin 8} {s t : Listing} {c : Call}

/-- A read through the descriptor is a `dir_read`. -/
theorem ListingOk.read (h : ListingOk files inodes blocks p d s) {k' : Kernel} {fd nbytes r : Int} {buf : Ptr}
    {stored : List UInt8} (hthrough : ReadsThrough p d s.kernel (.read fd buf nbytes))
    (hread : sysRead s.kernel fd buf nbytes = some (k', r, stored)) :
    (listing files)[s.kernel.fs.currDir]? = some (r, stored) ∧
      k'.fs.currDir = if s.kernel.fs.currDir < files.length then s.kernel.fs.currDir + 1 else 0 := by
  obtain ⟨rfl, rfl, hbuf⟩ := hthrough
  obtain ⟨htwo, hexists, hfop⟩ := h.slot
  have hindex : fdIndex d.val = d := (fdIndex_eq_iff ⟨by omega, by omega⟩).2 rfl
  have hrange : ¬((d.val : Int) < 0 ∨ (d.val : Int) ≥ 8 ∨ (d.val : Int) = 1) := by omega
  obtain ⟨b, rfl⟩ := Option.ne_none_iff_exists'.1 hbuf
  have hspec := dirRead_spec h.fsOk.layout h.fsOk.mounted h.fsOk.slots.dirIsOpen h.currDir
  simp only [sysRead, hrange, hindex, Kernel.fdt, hexists, hfop, fopRead, if_false, Bool.true_eq_false,
    Option.some.injEq, Prod.mk.injEq] at hread
  obtain ⟨rfl, hresult⟩ := hread
  rw [hresult] at hspec
  exact hspec

private theorem listStep_callStep (hstep : ListStep p d s c t) : CallStep s.kernel c t.kernel := by
  cases hstep with
  | read _ h => exact .read h
  | other _ h => exact h

private theorem listStep_ok (h : ListingOk files inodes blocks p d s) (hc : CursorKept files.length p d s c)
    (hstep : ListStep p d s c t) : ListingOk files inodes blocks p d t := by
  have hcall := listStep_callStep hstep
  have hslots := h.fsOk.slots
  obtain ⟨htwo, hexists, hfop⟩ := h.slot
  have hcount := h.fsOk.layout.dirCount h.fsOk.mounted
  have hcurr : t.kernel.fs.currDir ≤ files.length := by
    rw [← hcount]
    exact callStep_currDir hslots (hcount ▸ h.currDir) hcall
  refine ⟨callStep_filesOk h.fsOk hcall, ⟨htwo, ?_⟩, hcurr, ?_⟩
  · have hexists' : ((t.kernel.allPcbs p).fdt d).exists_ = true := by
      cases hstep with
      | @read k k' results left fd nbytes r buf stored hthrough hread =>
        obtain ⟨rfl, -, -⟩ := hthrough
        obtain ⟨⟨n, hfdt⟩, hcalls, -⟩ := sysRead_position hslots hread
        rw [Kernel.fdt, hcalls.pidCounter] at hfdt
        rw [hfdt]
        by_cases hslot : d = fdIndex fd
        · rw [hslot, Function.update_self]
          rwa [hslot] at hexists
        · rwa [Function.update_of_ne hslot]
      | other _ _ hopen => exact hopen
    exact ⟨hexists', (callStep_fop hslots hcall htwo hexists hexists').trans hfop⟩
  · cases hstep with
    | @read k k' results left fd nbytes r buf stored hthrough hread =>
      intro hlen
      rw [List.length_append, List.length_singleton] at hlen ⊢
      have hbound : results.length ≤ files.length := by omega
      have hkept : k.fs.currDir = left := hc hthrough hbound
      have hleft : left = results.length := h.left hbound
      have hmoved : k'.fs.currDir = if k.fs.currDir < files.length then k.fs.currDir + 1 else 0 :=
        (h.read hthrough hread).2
      show k'.fs.currDir = results.length + 1
      rw [hmoved, if_pos (by omega)]
      omega
    | other => exact h.left

/-- A step keeps the listing right exactly when the position has been left alone. -/
private theorem listStep_enumerates_iff (h : ListingOk files inodes blocks p d s) (hq : Enumerates files s.results)
    (hstep : ListStep p d s c t) : Enumerates files t.results ↔ CursorKept files.length p d s c := by
  cases hstep with
  | @read k k' results left fd nbytes r buf stored hthrough hread =>
    have hentry : (listing files)[k.fs.currDir]? = some (r, stored) := (h.read hthrough hread).1
    rw [enumerates_append_iff hq]
    constructor
    · intro hnext _ hlen
      -- the entries differ, so the result tells the position
      have heq := (hnext hlen).trans hentry.symm
      have hlt : results.length < (listing files).length := by
        rw [listing_length]
        exact Nat.lt_succ_of_le hlen
      have hleft : left = results.length := h.left hlen
      have hsame : results.length = k.fs.currDir :=
        (List.getElem?_inj hlt (listing_nodup h.fsOk.layout.distinct)).1 heq
      show k.fs.currDir = left
      omega
    · intro hkept hlen
      have hcursor : k.fs.currDir = left := hkept hthrough hlen
      have hleft : left = results.length := h.left hlen
      rw [← hleft, ← hcursor]
      exact hentry
  | other hother => exact ⟨fun _ hthrough => absurd hthrough hother, fun _ => hq⟩

/-- `sys_open` of a directory starts at entry 0. -/
private theorem sysOpen_dot {k k' : Kernel} {filename : Nat → UInt8} {r : Int} (hslots : SlotsOk k) {i : Nat}
    (hnames : Names k.fs filename i) (htype : (k.fs.bootBlockMain.direntries i).filetype = 1)
    (hdot : filename 0 = 0x2E) (hopen : sysOpen k filename = some (k', r)) (hr : r ≠ -1) : k'.fs.currDir = 0 := by
  obtain ⟨hfiletype, -, hfound⟩ := readDentryByName_some (findDentry_eq_some_iff.2 hnames) hslots.dirCount emptyDentry
  generalize hentry : readDentryByName k.fs filename emptyDentry = entry at hfiletype hfound
  unfold sysOpen at hopen
  dsimp only at hopen
  rw [hentry, if_neg hfound] at hopen
  cases hfree : freeFd k.fdt with
  | none =>
    rw [hfree, Option.some.injEq, Prod.mk.injEq] at hopen
    exact absurd hopen.2.symm hr
  | some d =>
    have hcurr := dirOpen_currDir k.fs hslots.dirIsOpen filename
    rw [if_pos hdot] at hcurr
    have hfop : fopOfType entry.1.filetype (k.fdt d).fop_ = .dir := by rw [hfiletype, htype]; rfl
    simp only [hfree, hfop, setFd_fdt, Function.update_self, fopOpen, Option.map_some, Option.some.injEq,
      Prod.mk.injEq] at hopen
    obtain ⟨rfl, -⟩ := hopen
    exact hcurr

/-- An opening starts with nothing read, at entry 0. -/
private theorem sysOpen_listingOk {k k' : Kernel} {f : File} {filename : Nat → UInt8}
    (hk : FilesOk files inodes blocks k) (hf : f ∈ files) (hdot : f.name = asBytes ".") (htype : f.filetype = 1)
    (hname : SameName (cString f.name) filename 32)
    (hopen : sysOpen k filename = some (k', (d.val : Int))) :
    ListingOk files inodes blocks k.pidCounter d ⟨k', [], k'.fs.currDir⟩ := by
  have hcall : CallStep k (.open_ filename) k' := .open_ hopen
  obtain ⟨hfail, -⟩ | ⟨i, e, hfd, hnames, hopens, -⟩ := hk.slots.sysOpen_cases hopen
  · omega
  obtain ⟨-, hfiletype, -⟩ := hk.layout.dentry hk.mounted (hk.layout.names_eq hk.mounted hnames hf hname)
  rw [htype] at hfiletype
  obtain rfl : d = e := Fin.ext (by omega)
  obtain ⟨fop, hmatch, hadded⟩ := hopens.added
  have hfop : fop = .dir := by
    rcases hmatch with ⟨hzero, -⟩ | ⟨-, hdir⟩ | ⟨htwo, -⟩
    · omega
    · exact hdir
    · omega
  have hspelled := (hname.symm.spells f.nameBytes f.nameLength.2).1 0 (by have := f.nameLength.1; omega)
  have hfirst : filename 0 = 0x2E := by
    rw [hspelled.1, hdot]
    rfl
  have hcurr := sysOpen_dot hk.slots hnames hfiletype hfirst hopen (by omega)
  refine ⟨callStep_filesOk hk hcall, ⟨hopens.least.1, ?_⟩, ?_, fun _ => hcurr⟩
  · have hslot := congrFun hadded d
    rw [Function.update_self, openFiles, hfop] at hslot
    split at hslot
    · next hexists =>
      rw [Option.some.injEq, Descriptor.mk.injEq] at hslot
      rw [Kernel.fdt, hopens.only.pidCounter] at hexists hslot
      exact ⟨hexists, hslot.1⟩
    · cases hslot
  · dsimp only
    rw [hcurr]
    exact Nat.zero_le _

end Opening

/-! ### Runs -/

/-- Listing a directory.  Boot with an image of the files, let the first shell be launched and any calls follow, until a
process opens `"."` as descriptor `d`.  As long as `curr_dir` is, at every read through `d`, where the last one (or the
`sys_open`) left it, the reads return the names of the entries in order and then 0, whatever else is called in between;
and from there a step keeps the listing right exactly when it, too, finds `curr_dir` there. -/
theorem directory_listing_iff {b : Boot} {files : List File} {inodes blocks : Nat} {frame execFrame : Frame} {eip : Int}
    {calls after : List Call} {k₀ k₁ : Kernel} {f : File} {filename : Nat → UInt8} {d : Fin 8} {s : Listing}
    (hlayout : Layout b.image files inodes blocks)
    (hlaunch : (pitHandler (entry b) frame execFrame).2 = .launched eip)
    (hcalls : Run CallStep (pitHandler (entry b) frame execFrame).1 calls k₀) (hf : f ∈ files)
    (hdot : f.name = asBytes ".") (htype : f.filetype = 1) (hname : SameName (cString f.name) filename 32)
    (hopen : sysOpen k₀ filename = some (k₁, (d.val : Int)))
    (hrun : Run (Guarded (CursorKept files.length k₀.pidCounter d) (ListStep k₀.pidCounter d)) ⟨k₁, [], k₁.fs.currDir⟩
      after s) :
    Enumerates files s.results ∧
      ∀ c t, ListStep k₀.pidCounter d s c t → (Enumerates files t.results ↔
        CursorKept files.length k₀.pidCounter d s c) := by
  have hk₀ := calls_filesOk (firstShell_filesOk hlayout hlaunch) hcalls
  have hstart := sysOpen_listingOk hk₀ hf hdot htype hname hopen
  have hnone : Enumerates files [] := by simp [Enumerates]
  refine Run.guarded_exact (I := ListingOk files inodes blocks k₀.pidCounter d)
    (Q := fun s => Enumerates files s.results) ?_ ?_ hrun hstart hnone
  · exact fun _ _ _ h _ hc hstep => listStep_ok h hc hstep
  · exact fun _ _ _ h hq hstep => listStep_enumerates_iff h hq hstep

/-! ### The directory of a machine with one program -/

/-- The image of the machine with one program, with an entry for the directory before that of the program. -/
def dotImage : Nat → UInt8 := fun a =>
  if a = 0 then 2
  else if 64 ≤ a ∧ a < 128 then if a = 64 then 0x2E else if a = 96 then 1 else 0
  else if 128 ≤ a ∧ a < 192 then shellImage (a - 64)
  else shellImage a

def dotBoot : Boot := { shellBoot with image := dotImage }

def dotFile : File where
  name := asBytes "."
  filetype := 1
  contents := []
  nameLength := by decide
  nameBytes := by decide
  filetypeLe := by decide
  size := by decide

theorem dotImage_layout : Layout dotImage [dotFile, shellFile] 1 1 where
  count := by decide +kernel
  inodeCount := by decide +kernel
  dataCount := by decide +kernel
  atMost := by decide
  distinct := by decide
  entry i f hf := by
    have hi : i = 0 ∨ i = 1 := by
      have hlt := (List.getElem?_eq_some_iff.1 hf).1
      simp only [List.length_cons, List.length_nil] at hlt
      omega
    rcases hi with rfl | rfl
    · simp only [List.getElem?_cons_zero, Option.some.injEq] at hf
      subst hf
      exact ⟨⟨1, by decide, by decide +kernel, fun _ => by decide +kernel⟩, by decide +kernel,
        fun htype => by cases htype⟩
    · simp only [List.getElem?_cons_succ, List.getElem?_cons_zero, Option.some.injEq] at hf
      subst hf
      have hinode : wordAt dotImage (64 * (1 + 1) + 36) = 0 := by decide +kernel
      refine ⟨⟨5, by decide, by decide +kernel, fun _ => by decide +kernel⟩, by decide +kernel, fun _ => ?_⟩
      rw [hinode]
      refine ⟨by decide, by decide +kernel, ?_, ?_⟩
      · intro b hb
        have hlength : shellFile.contents.length = 28 := by decide
        obtain rfl : b = 0 := by omega
        decide +kernel
      · decide +kernel
  fits := by decide

/-- The shell of that machine, and the states after it has opened the directory once and twice. -/
def dotShell : Kernel := (pitHandler (entry dotBoot) frame₀ frame₀).1
def dotOpened : Kernel := ((sysOpen dotShell (cString (asBytes "."))).getD (dotShell, -1)).1
def dotReopened : Kernel := ((sysOpen dotOpened (cString (asBytes "."))).getD (dotShell, -1)).1

private theorem dotShell_open : sysOpen dotShell (cString (asBytes ".")) = some (dotOpened, 2) := by
  have hresult : ((sysOpen dotShell (cString (asBytes "."))).getD (dotShell, -1)).2 = 2 := by decide +kernel
  exact eq_some_of_getD (by decide +kernel) hresult

/-- A read of 32 bytes, for its result. -/
def nameRead (k : Kernel) (fd : Int) : Kernel × Int × List UInt8 :=
  (sysRead k fd (some fun _ => 0) 32).getD (k, -1, [])

/-- One opening read alone returns both names, and then 0. -/
theorem dotShell_lists_directory :
    let s : Listing := ⟨(nameRead (nameRead (nameRead dotOpened 2).1 2).1 2).1,
      [(1, asBytes "."), (5, asBytes "shell"), (0, [])], 0⟩
    Enumerates [dotFile, shellFile] s.results ∧
      ∀ c t, ListStep 0 2 s c t → (Enumerates [dotFile, shellFile] t.results ↔ CursorKept 2 0 2 s c) := by
  have hlaunch : (pitHandler (entry dotBoot) frame₀ frame₀).2 = .launched 0x8048000 := by decide +kernel
  let read : Call := .read 2 (some fun _ => 0) 32
  have hfirst : sysRead dotOpened 2 (some fun _ => 0) 32 = some ((nameRead dotOpened 2).1, 1, asBytes ".") := by
    have hresult : (nameRead dotOpened 2).2 = (1, asBytes ".") := by decide +kernel
    exact eq_some_of_getD (by decide +kernel) hresult
  have hsecond : sysRead (nameRead dotOpened 2).1 2 (some fun _ => 0) 32 =
      some ((nameRead (nameRead dotOpened 2).1 2).1, 5, asBytes "shell") := by
    have hresult : (nameRead (nameRead dotOpened 2).1 2).2 = (5, asBytes "shell") := by decide +kernel
    exact eq_some_of_getD (by decide +kernel) hresult
  have hthird : sysRead (nameRead (nameRead dotOpened 2).1 2).1 2 (some fun _ => 0) 32 =
      some ((nameRead (nameRead (nameRead dotOpened 2).1 2).1 2).1, 0, []) := by
    have hresult : (nameRead (nameRead (nameRead dotOpened 2).1 2).1 2).2 = (0, []) := by decide +kernel
    exact eq_some_of_getD (by decide +kernel) hresult
  have hstep : ∀ {k k' : Kernel} {r : Int × List UInt8} (results : List (Int × List UInt8)), k.pidCounter = 0 →
      sysRead k 2 (some fun _ => 0) 32 = some (k', r.1, r.2) → Guarded (CursorKept 2 0 2) (ListStep 0 2)
        ⟨k, results, k.fs.currDir⟩ read ⟨k', results ++ [r], k'.fs.currDir⟩ :=
    fun results hpid hread => ⟨cursorKept_self _ _ _ _ _ _, .read ⟨hpid, rfl, by simp⟩ hread⟩
  have hrun : Run (Guarded (CursorKept 2 0 2) (ListStep 0 2)) ⟨dotOpened, [], dotOpened.fs.currDir⟩
      ([] ++ [read] ++ [read] ++ [read]) _ :=
    .snoc (.snoc (.snoc (.nil _) (hstep (r := (1, asBytes ".")) [] (by decide +kernel) hfirst))
      (hstep (r := (5, asBytes "shell")) _ (by decide +kernel) hsecond))
      (hstep (r := (0, [])) _ (by decide +kernel) hthird)
  have hzero : (nameRead (nameRead (nameRead dotOpened 2).1 2).1 2).1.fs.currDir = 0 := by decide +kernel
  rw [hzero] at hrun
  exact directory_listing_iff dotImage_layout hlaunch (.nil _) (List.mem_cons_self) rfl rfl
    ⟨1, by decide, by decide, fun _ => by decide⟩ dotShell_open hrun

/-- Two openings share the position: after one read through the first, the second starts with `shell`. -/
theorem two_openings_share_position :
    ∃ after k, sysOpen dotShell (cString (asBytes ".")) = some (dotOpened, 2) ∧
      sysOpen dotOpened (cString (asBytes ".")) = some (dotReopened, 3) ∧
      Run (ListStep 0 3) ⟨dotReopened, [], dotReopened.fs.currDir⟩ after ⟨k, [(5, asBytes "shell")], 2⟩ ∧
      ¬Enumerates [dotFile, shellFile] [((5 : Int), asBytes "shell")] := by
  have hopen : sysOpen dotOpened (cString (asBytes ".")) = some (dotReopened, 3) := by
    have hresult : ((sysOpen dotOpened (cString (asBytes "."))).getD (dotShell, -1)).2 = 3 := by decide +kernel
    exact eq_some_of_getD (by decide +kernel) hresult
  have hfirst : sysRead dotReopened 2 (some fun _ => 0) 32 = some ((nameRead dotReopened 2).1, 1, asBytes ".") := by
    have hresult : (nameRead dotReopened 2).2 = (1, asBytes ".") := by decide +kernel
    exact eq_some_of_getD (by decide +kernel) hresult
  have hsecond : sysRead (nameRead dotReopened 2).1 3 (some fun _ => 0) 32 =
      some ((nameRead (nameRead dotReopened 2).1 3).1, 5, asBytes "shell") := by
    have hresult : (nameRead (nameRead dotReopened 2).1 3).2 = (5, asBytes "shell") := by decide +kernel
    exact eq_some_of_getD (by decide +kernel) hresult
  have hother : ¬ReadsThrough 0 3 dotReopened (.read 2 (some fun _ => 0) 32) := by
    rintro ⟨-, hfd, -⟩
    exact absurd hfd (by decide)
  have hopen' : (((nameRead dotReopened 2).1.allPcbs 0).fdt 3).exists_ = true := by decide +kernel
  have hfirst' : ∀ left, ListStep 0 3 ⟨dotReopened, [], left⟩ (.read 2 (some fun _ => 0) 32)
      ⟨(nameRead dotReopened 2).1, [], left⟩ :=
    fun _ => .other hother (.read hfirst) hopen'
  have hsecond' : ListStep 0 3 ⟨(nameRead dotReopened 2).1, [], dotReopened.fs.currDir⟩ (.read 3 (some fun _ => 0) 32)
      ⟨(nameRead (nameRead dotReopened 2).1 3).1, [] ++ [(5, asBytes "shell")],
        (nameRead (nameRead dotReopened 2).1 3).1.fs.currDir⟩ :=
    .read ⟨by decide +kernel, rfl, by simp⟩ hsecond
  have htwo : (nameRead (nameRead dotReopened 2).1 3).1.fs.currDir = 2 := by decide +kernel
  rw [htwo] at hsecond'
  exact ⟨_, _, dotShell_open, hopen, .snoc (Run.single (hfirst' _)) hsecond', by decide⟩

end BigChungOS
