import BigChungOS.CommandParsing
import BigChungOS.DirectoryListing
import BigChungOS.ReadBounds

/-!
# Which files `sys_execute` launches, and where it puts them

`sys_execute` looks its first word up in the directory, lets `exec_check` look at the first data block behind the inode
number of the entry, and copies the file to `0x8048000`.

`exec_check` is not told the type of the entry or the length of the file.  An entry that is not a program is launched
when its inode number leads to a block that starts like one, and only then (`only_executables_launched_iff`).  The copy
asks for 4MB, more than there are from `0x8048000` to the end of the user page; it stays inside the page for files of at
most `0x3B8000` bytes, the value of the constant `MAX_BYTES` that nothing uses (`load_inside_iff`).
-/

namespace BigChungOS

open Memory

/-! ### The words at the start of a file -/

/-- The address (in words) of the first data block of an inode. -/
def firstBlock (fs : FileSystem) (inode : Nat) : Nat :=
  1024 * (1 + fs.bootBlockMain.inodeCount + fs.word (1024 * (1 + inode) + 1))

/-- The first data block behind an inode number starts with `ELFMAGIC`, and its word 6 is an entry point, not -1. -/
def ElfBlock (fs : FileSystem) (inode : Nat) : Prop :=
  fs.word (firstBlock fs inode) = 0x464C457F ∧ fs.word (firstBlock fs inode + 6) ≠ 0xFFFFFFFF

/-- A byte of the word `*(boot_block_ptr + i)` is at an address that is not mapped. -/
def Unmapped (fs : FileSystem) (i : Nat) : Prop :=
  ∃ j < 4, kernelMapped ((fs.bootBlockPtr + 4 * i + j) % 4294967296) = false

/-- One of the words that `exec_check` reads for an inode number is not mapped: that of the number of the first block,
the first one of the block, or, if that is `ELFMAGIC`, its word 6. -/
def WildInode (fs : FileSystem) (inode : Nat) : Prop :=
  Unmapped fs (1024 * (1 + inode) + 1) ∨ Unmapped fs (firstBlock fs inode) ∨
    fs.word (firstBlock fs inode) = 0x464C457F ∧ Unmapped fs (firstBlock fs inode + 6)

private theorem load_eq_none {fs : FileSystem} {i : Nat} (h : Unmapped fs i) : fs.load i = none := by
  obtain ⟨j, hj, hunmapped⟩ := h
  refine if_neg fun hall => ?_
  rw [List.all_eq_true.1 hall j (List.mem_range.2 hj)] at hunmapped
  cases hunmapped

private theorem load_eq_some {fs : FileSystem} {i : Nat} (h : ¬Unmapped fs i) : fs.load i = some (fs.word i) := by
  refine if_pos (List.all_eq_true.2 fun j hj => ?_)
  by_contra hunmapped
  exact h ⟨j, List.mem_range.1 hj, by simpa using hunmapped⟩

/-- `exec_check` faults for the wild inode numbers. -/
private theorem execCheck_wild {fs : FileSystem} {inode : Nat} (h : WildInode fs inode) :
    execCheck fs inode = none := by
  unfold execCheck
  by_cases hnumber : Unmapped fs (1024 * (1 + inode) + 1)
  · rw [load_eq_none hnumber]
  rw [load_eq_some hnumber]
  by_cases hfirst : Unmapped fs (firstBlock fs inode)
  · dsimp only
    rw [← firstBlock, load_eq_none hfirst]
  obtain ⟨hmagic, hentry⟩ := (h.resolve_left hnumber).resolve_left hfirst
  dsimp only
  rw [← firstBlock, load_eq_some hfirst, hmagic, load_eq_none hentry]
  rfl

-- the inode block of number `0x10000` is past the page of the kernel
example : execCheck firstShell.fs 0x10000 = none := by decide +kernel

/-- It answers for the others. -/
private theorem execCheck_eq {fs : FileSystem} {inode : Nat} (h : ¬WildInode fs inode) :
    execCheck fs inode = some
      (if fs.word (firstBlock fs inode) ≠ 0x464C457F then -1 else toInt32 (fs.word (firstBlock fs inode + 6))) := by
  simp only [WildInode, not_or, not_and] at h
  obtain ⟨hnumber, hfirst, hentry⟩ := h
  unfold execCheck
  rw [load_eq_some hnumber]
  dsimp only
  rw [← firstBlock, load_eq_some hfirst]
  dsimp only
  split
  · rfl
  · next hmagic => rw [load_eq_some (hentry (not_not.1 hmagic)), Option.map_some]

/-- It accepts the file, and `eip` is the entry point. -/
private theorem execCheck_accepts_iff {fs : FileSystem} {inode : Nat} :
    (∃ eip, execCheck fs inode = some eip ∧ eip ≠ -1) ↔ ¬WildInode fs inode ∧ ElfBlock fs inode := by
  have hlt := word_lt fs (firstBlock fs inode + 6)
  by_cases hwild : WildInode fs inode
  · simp [execCheck_wild hwild, hwild]
  · simp only [execCheck_eq hwild, hwild, Option.some.injEq, exists_eq_left', not_false_eq_true, true_and]
    unfold ElfBlock
    split
    · next hmagic => simp [hmagic]
    · next hmagic =>
      rw [not_not] at hmagic
      simp only [hmagic, true_and]
      unfold toInt32
      omega

/-- A program: a whole ELF header, with the entry point in the bytes 24 to 27. -/
structure Executable (contents : List UInt8) (eip : Int) : Prop where
  header : 28 ≤ contents.length
  magic : contents.take 4 = [0x7F, 0x45, 0x4C, 0x46]
  entryPoint : eip = toInt32 (wordAt (cString contents) 24)

section Contents

variable {fs : FileSystem} {inode : Nat} {contents : List UInt8}

/-- A word of the first block is one of the file. -/
private theorem word_firstBlock (h : Holds fs inode contents) {i : Nat} (hi : i < 1024)
    (hlength : 4 * i + 3 < contents.length) :
    fs.word (firstBlock fs inode + i) = wordAt (cString contents) (4 * i) := by
  have hbyte : ∀ t < 4, fs.byte (4 * (firstBlock fs inode + i) + t) = cString contents (4 * i + t) := by
    intro t ht
    have hdata := h.data (4 * i + t) (by omega)
    have hdiv : (4 * i + t) / 4096 = 0 := by omega
    have hmod : (4 * i + t) % 4096 = 4 * i + t := by omega
    rw [hdiv, hmod, Nat.add_zero] at hdata
    unfold cString firstBlock
    rw [List.getD_eq_getElem?_getD, hdata, Nat.mul_add 4, Nat.add_assoc]
    rfl
  have hfirst := hbyte 0 (by omega)
  rw [Nat.add_zero, Nat.add_zero] at hfirst
  unfold FileSystem.word wordAt
  rw [hfirst, hbyte 1 (by omega), hbyte 2 (by omega), hbyte 3 (by omega)]

private theorem wordAt_magic_iff (m : Nat → UInt8) :
    wordAt m 0 = 0x464C457F ↔ m 0 = 0x7F ∧ m 1 = 0x45 ∧ m 2 = 0x4C ∧ m 3 = 0x46 := by
  have h0 := (m 0).toNat_lt
  have h1 := (m 1).toNat_lt
  have h2 := (m 2).toNat_lt
  have h3 := (m 3).toNat_lt
  unfold wordAt
  simp only [← UInt8.toNat_inj, Nat.zero_add, UInt8.reduceToNat]
  omega

private theorem take_four {contents : List UInt8} (h : 4 ≤ contents.length) :
    contents.take 4 = [cString contents 0, cString contents 1, cString contents 2, cString contents 3] := by
  match contents, h with
  | a :: b :: c :: d :: rest, _ => rfl

/-- What `exec_check` finds in a file with a whole header. -/
private theorem elfBlock_iff (h : Holds fs inode contents) (hheader : 28 ≤ contents.length) :
    ElfBlock fs inode ↔ contents.take 4 = [0x7F, 0x45, 0x4C, 0x46] ∧ wordAt (cString contents) 24 ≠ 0xFFFFFFFF := by
  have hmagic := word_firstBlock h (i := 0) (by omega) (by omega)
  have hentry := word_firstBlock h (i := 6) (by omega) (by omega)
  unfold ElfBlock
  rw [hentry, take_four (by omega)]
  rw [Nat.add_zero, Nat.mul_zero] at hmagic
  rw [hmagic, wordAt_magic_iff]
  simp

/-- A program is accepted with its entry point. -/
private theorem execCheck_executable (h : Holds fs inode contents) (hheader : 28 ≤ contents.length) {eip : Int}
    (hcheck : execCheck fs inode = some eip) (heip : eip ≠ -1) : Executable contents eip := by
  obtain ⟨hmapped, helf⟩ := execCheck_accepts_iff.1 ⟨eip, hcheck, heip⟩
  have hentry := word_firstBlock h (i := 6) (by omega) (by omega)
  rw [execCheck_eq hmapped, if_neg (by simp [helf.1]), hentry, Option.some.injEq] at hcheck
  exact ⟨hheader, ((elfBlock_iff h hheader).1 helf).1, hcheck.symm⟩

end Contents

/-! ### `sys_execute`, by the words of the command -/

/-- The state in which `sys_execute` looks the program up: PCB `pid` taken, with the second word in its `args`. -/
def prepared (k : Kernel) (pid : Fin 6) (args : List UInt8) : Kernel :=
  (initPcb { k with prevPid := k.pidCounter, pidCounter := pid } pid).setPcb pid fun pcb =>
    { pcb with args := fun i => if i < args.length then args.getD i 0 else pcb.args i }

/-- The inode number `sys_execute` finds under a name. -/
def lookedUpInode (fs : FileSystem) (name : List UInt8) : Nat :=
  (readDentryByName fs (cString name) emptyDentry).1.inodeNum

private theorem execOutcome_eq (fs : FileSystem) (command : List UInt8) :
    execOutcome fs (some command) =
      if 32 < (firstWord command).length ∨ 32 < (firstWord (afterWord command)).length then .error
      else if (readDentryByName fs (cString (firstWord command)) emptyDentry).2 = -1 then .error
      else fileOutcome fs (lookedUpInode fs (firstWord command)) := by
  unfold execOutcome lookedUpInode
  dsimp only
  rw [scanWord_skipSpaces]
  by_cases hname : (firstWord command).length ≤ 32
  · rw [if_pos hname]
    dsimp only
    rw [scanWord_skipSpaces]
    by_cases hargs : (firstWord (afterWord command)).length ≤ 32
    · have hshort : ¬(32 < (firstWord command).length ∨ 32 < (firstWord (afterWord command)).length) := by omega
      rw [if_pos hargs, if_neg hshort]
    · have hlong : 32 < (firstWord command).length ∨ 32 < (firstWord (afterWord command)).length := by omega
      rw [if_neg hargs, if_pos hlong]
  · have hlong : 32 < (firstWord command).length ∨ 32 < (firstWord (afterWord command)).length := by omega
    rw [if_neg hname, if_pos hlong]

/-- A launch: both words fit, and the state is that of `launch`. -/
theorem sysExecute_launched_eq {k : Kernel} {command : Option (List UInt8)} {frame : Frame} {eip : Int}
    (h : (sysExecute k command frame).2 = .launched eip) :
    ∃ text pid, command = some text ∧ getFreePcb k = some pid ∧ (firstWord text).length ≤ 32 ∧
      (firstWord (afterWord text)).length ≤ 32 ∧
      (sysExecute k command frame).1 = launch (prepared k pid (firstWord (afterWord text)))
        (execFileLoad k.fs (lookedUpInode k.fs (firstWord text)) 0 (4096 * 1024)) frame := by
  have hsame : getFreePcb { k with prevPid := k.pidCounter } = getFreePcb k := rfl
  unfold sysExecute at h ⊢
  dsimp only at h ⊢
  rw [hsame] at h ⊢
  cases hfree : getFreePcb k with
  | none => simp [hfree] at h
  | some pid =>
    cases command with
    | none => simp [hfree] at h
    | some text =>
      refine ⟨text, pid, rfl, rfl, ?_⟩
      simp only [hfree, scanWord_skipSpaces] at h ⊢
      by_cases hname : (firstWord text).length ≤ 32
      · simp only [if_pos hname] at h ⊢
        by_cases hargs : (firstWord (afterWord text)).length ≤ 32
        · simp only [if_pos hargs] at h ⊢
          refine ⟨hname, hargs, ?_⟩
          split at h
          · cases h
          next hfound =>
          rw [if_neg hfound]
          generalize hcheck : execCheck _ _ = checked at h ⊢
          cases checked with
          | none => cases h
          | some entry =>
            dsimp only at h ⊢
            split at h
            · cases h
            next helf =>
            split at h
            · cases h
            next hfits =>
            rw [if_neg helf, if_neg hfits]
            rfl
        · simp [hargs] at h
      · simp [hname] at h

/-! ### Only executables are launched -/

/-- The first word of the command names a regular file that is a program with the entry point `eip`. -/
def NamesProgram (files : List File) (command : Option (List UInt8)) (eip : Int) : Prop :=
  ∃ text f, command = some text ∧ f ∈ files ∧ f.name = firstWord text ∧ f.filetype = 2 ∧ Executable f.contents eip

/-- `sys_execute` enters a program at its entry point, or, when the command names none, returns -1. -/
structure LaunchesPrograms (files : List File) (k : Kernel) (command : Option (List UInt8)) (frame : Frame) : Prop where
  launched : ∀ eip, (sysExecute k command frame).2 = .launched eip → NamesProgram files command eip
  otherwise : (∀ eip, ¬NamesProgram files command eip) → (sysExecute k command frame).2 = .error

private theorem launchesPrograms_error {files : List File} {k : Kernel} {command : Option (List UInt8)} {frame : Frame}
    (herror : (sysExecute k command frame).2 = .error) : LaunchesPrograms files k command frame := by
  refine ⟨?_, fun _ => herror⟩
  intro eip hlaunched
  rw [herror] at hlaunched
  cases hlaunched

/-- The first word names the entry `f`, with the inode number `inode`. -/
def NamesEntry (fs : FileSystem) (files : List File) (command : Option (List UInt8)) (f : File) (inode : Nat) : Prop :=
  ∃ text i, command = some text ∧ (firstWord (afterWord text)).length ≤ 32 ∧ files[i]? = some f ∧
    f.name = firstWord text ∧ inode = wordAt fs.image (64 * (i + 1) + 36)

/-- The first word names an entry that is not a regular file with a whole header, but whose inode number leads to a
block that starts like a program. -/
def NamesLookalike (fs : FileSystem) (files : List File) (command : Option (List UInt8)) : Prop :=
  ∃ f inode, NamesEntry fs files command f inode ∧ ¬(f.filetype = 2 ∧ 28 ≤ f.contents.length) ∧
    ¬WildInode fs inode ∧ ElfBlock fs inode

/-- The first word names an entry that is no program, and whose inode number leads to an address that is not mapped. -/
def NamesWild (fs : FileSystem) (files : List File) (command : Option (List UInt8)) : Prop :=
  ∃ f inode, NamesEntry fs files command f inode ∧ ¬(f.filetype = 2 ∧ ∃ eip, Executable f.contents eip) ∧
    WildInode fs inode

section Launch

variable {files : List File} {inodes blocks : Nat}

/-- The lookup of the name of a file. -/
private theorem lookup_found {fs : FileSystem} (hm : Mounted fs) (h : Layout fs.image files inodes blocks) {i : Nat}
    {f : File} (hf : files[i]? = some f) :
    (readDentryByName fs (cString f.name) emptyDentry).2 ≠ -1 ∧
      lookedUpInode fs f.name = wordAt fs.image (64 * (i + 1) + 36) := by
  have hdir := h.directory hm
  have hfind : findDentry fs (cString f.name) = some i := by
    rw [hdir.findDentry_eq (isString_cString f.nameBytes), List.take_of_length_le f.nameLength.2, List.getElem?_map, hf]
    rfl
  have hcount : fs.bootBlockMain.dirCount < 4294967296 := by
    have hle := hdir.atMost
    rw [hdir.count]
    omega
  obtain ⟨-, hinode, hret⟩ := readDentryByName_some hfind hcount emptyDentry
  exact ⟨hret, hinode.trans (h.dentry hm hf).2.2⟩

private theorem lookup_missing {fs : FileSystem} (hm : Mounted fs) (h : Layout fs.image files inodes blocks)
    {name : List UInt8} (hbytes : (0 : UInt8) ∉ name) (hlength : name.length ≤ 32)
    (hmissing : ∀ f ∈ files, f.name ≠ name) : (readDentryByName fs (cString name) emptyDentry).2 = -1 := by
  have hnone : findDentry fs (cString name) = none := by
    rw [Option.eq_none_iff_forall_not_mem]
    intro i hfind
    have hget := ((h.directory hm).findDentry_eq (isString_cString hbytes)).1 hfind
    rw [List.take_of_length_le hlength, List.getElem?_map, Option.map_eq_some_iff] at hget
    obtain ⟨f, hf, hname⟩ := hget
    exact hmissing f (List.mem_of_getElem? hf) hname
  rw [readDentryByName_none hnone]

/-- The result of `sys_execute` on the name of an entry. -/
private theorem sysExecute_file {k : Kernel} (hm : Mounted k.fs) (h : Layout k.fs.image files inodes blocks)
    (hfree : getFreePcb k ≠ none) {command : Option (List UInt8)} {f : File} {inode : Nat}
    (hnames : NamesEntry k.fs files command f inode) (frame : Frame) :
    (sysExecute k command frame).2 = fileOutcome k.fs inode := by
  obtain ⟨text, i, rfl, hargs, hf, hname, rfl⟩ := hnames
  have hlength : (firstWord text).length ≤ 32 := hname ▸ f.nameLength.2
  have hshort : ¬(32 < (firstWord text).length ∨ 32 < (firstWord (afterWord text)).length) := by omega
  obtain ⟨hret, hinode⟩ := lookup_found hm h hf
  rw [hname] at hret hinode
  rw [sysExecute_result, if_neg hfree, execOutcome_eq, if_neg hshort, if_neg hret, hinode]

/-- The entry a command names is the only one. -/
private theorem namesEntry_unique {image : Nat → UInt8} (h : Layout image files inodes blocks) {fs : FileSystem}
    {command : Option (List UInt8)} {f : File} {inode : Nat} (hnames : NamesEntry fs files command f inode) {eip : Int}
    (hprogram : NamesProgram files command eip) : f.filetype = 2 ∧ Executable f.contents eip := by
  obtain ⟨text, i, rfl, -, hf, hname, -⟩ := hnames
  obtain ⟨text', f', htext, hf', hname', hregular, hexecutable⟩ := hprogram
  cases htext
  have heq : f = f' := List.inj_on_of_nodup_map h.distinct (List.mem_of_getElem? hf) hf' (hname.trans hname'.symm)
  exact heq ▸ ⟨hregular, hexecutable⟩

/-- What looks like a program is not refused. -/
private theorem lookalike_not_refused {k : Kernel} (hm : Mounted k.fs) (h : Layout k.fs.image files inodes blocks)
    (hfree : getFreePcb k ≠ none) {command : Option (List UInt8)} (hlook : NamesLookalike k.fs files command)
    (frame : Frame) : ¬LaunchesPrograms files k command frame := by
  obtain ⟨f, inode, hnames, hheader, hmapped, helf⟩ := hlook
  intro hlaunches
  have herror := hlaunches.otherwise fun eip hprogram =>
    hheader ⟨(namesEntry_unique h hnames hprogram).1, (namesEntry_unique h hnames hprogram).2.header⟩
  obtain ⟨eip, hcheck, heip⟩ := execCheck_accepts_iff.2 ⟨hmapped, helf⟩
  rw [sysExecute_file hm h hfree hnames, fileOutcome, hcheck] at herror
  dsimp only at herror
  rw [if_neg heip] at herror
  split at herror
  · cases herror
  · cases herror

/-- A wild inode number is not refused either. -/
private theorem wild_not_refused {k : Kernel} (hm : Mounted k.fs) (h : Layout k.fs.image files inodes blocks)
    (hfree : getFreePcb k ≠ none) {command : Option (List UInt8)} (hwild : NamesWild k.fs files command)
    (frame : Frame) : ¬LaunchesPrograms files k command frame := by
  obtain ⟨f, inode, hnames, hnot, hunmapped⟩ := hwild
  intro hlaunches
  have herror := hlaunches.otherwise fun eip hprogram =>
    hnot ⟨(namesEntry_unique h hnames hprogram).1, eip, (namesEntry_unique h hnames hprogram).2⟩
  rw [sysExecute_file hm h hfree hnames, fileOutcome, execCheck_wild hunmapped] at herror
  cases herror

/-- The entry that the command names is launched if it is a program, and only then, unless it looks like one or its
inode number is wild. -/
private theorem entry_launches {k : Kernel} (hm : Mounted k.fs) (h : Layout k.fs.image files inodes blocks)
    (hfree : getFreePcb k ≠ none) {command : Option (List UInt8)} (hlook : ¬NamesLookalike k.fs files command)
    (hwild : ¬NamesWild k.fs files command) {f : File} {inode : Nat} (hnames : NamesEntry k.fs files command f inode)
    (frame : Frame) : LaunchesPrograms files k command frame := by
  have hresult := sysExecute_file hm h hfree hnames frame
  rw [fileOutcome] at hresult
  cases hcheck : execCheck k.fs inode with
  | none =>
    rw [hcheck] at hresult
    refine ⟨fun eip hlaunched => ?_, fun hnone => ?_⟩
    · rw [hresult] at hlaunched
      cases hlaunched
    -- the word that is not mapped belongs to a program
    · have hunmapped : WildInode k.fs inode := by
        by_contra hmapped
        rw [execCheck_eq hmapped] at hcheck
        cases hcheck
      refine absurd ⟨f, inode, hnames, ?_, hunmapped⟩ hwild
      rintro ⟨hregular, eip, hprogram⟩
      obtain ⟨text, i, rfl, -, hf, hname, -⟩ := hnames
      exact hnone eip ⟨text, f, rfl, List.mem_of_getElem? hf, hname, hregular, hprogram⟩
  | some entry =>
    rw [hcheck] at hresult
    dsimp only at hresult
    by_cases hentry : entry = -1
    · rw [if_pos hentry] at hresult
      exact launchesPrograms_error hresult
    · rw [if_neg hentry] at hresult
      obtain ⟨hmapped, helf⟩ := execCheck_accepts_iff.1 ⟨entry, hcheck, hentry⟩
      have hheader : f.filetype = 2 ∧ 28 ≤ f.contents.length := by
        by_contra hnot
        exact hlook ⟨f, inode, hnames, hnot, hmapped, helf⟩
      have hprogram : NamesProgram files command entry := by
        obtain ⟨text, i, rfl, -, hf, hname, rfl⟩ := hnames
        have hholds := h.holds hm hf hheader.1
        rw [(h.dentry hm hf).2.2] at hholds
        exact ⟨text, f, rfl, List.mem_of_getElem? hf, hname, hheader.1,
          execCheck_executable hholds hheader.2 hcheck hentry⟩
      refine ⟨fun eip hlaunched => ?_, fun hnone => absurd hprogram (hnone _)⟩
      rw [hresult] at hlaunched
      split at hlaunched
      · cases hlaunched
      · cases hlaunched
        exact hprogram

/-- Only programs are launched, as long as no entry that is not one looks like one to `exec_check`, or has an inode
number that leads it to an address that is not mapped. -/
theorem only_executables_launched_iff {k : Kernel} (hm : Mounted k.fs) (h : Layout k.fs.image files inodes blocks)
    (command : Option (List UInt8)) (frame : Frame) :
    LaunchesPrograms files k command frame ↔
      getFreePcb k = none ∨ ¬NamesLookalike k.fs files command ∧ ¬NamesWild k.fs files command := by
  by_cases hfree : getFreePcb k = none
  · -- nothing is launched
    have herror : (sysExecute k command frame).2 = .error := by rw [sysExecute_result, if_pos hfree]
    exact ⟨fun _ => .inl hfree, fun _ => launchesPrograms_error herror⟩
  constructor
  · exact fun hlaunches => .inr ⟨fun hlook => lookalike_not_refused hm h hfree hlook frame hlaunches,
      fun hwild => wild_not_refused hm h hfree hwild frame hlaunches⟩
  · intro hcond
    obtain ⟨hlook, hwild⟩ := hcond.resolve_left hfree
    cases command with
    | none =>
      have herror : (sysExecute k none frame).2 = .error := by
        rw [sysExecute_result, if_neg hfree]
        rfl
      exact launchesPrograms_error herror
    | some text =>
      by_cases hshort : 32 < (firstWord text).length ∨ 32 < (firstWord (afterWord text)).length
      · have herror : (sysExecute k (some text) frame).2 = .error := by
          rw [sysExecute_result, if_neg hfree, execOutcome_eq, if_pos hshort]
        exact launchesPrograms_error herror
      by_cases hnamed : ∃ f ∈ files, f.name = firstWord text
      · obtain ⟨f, hmem, hname⟩ := hnamed
        obtain ⟨i, hf⟩ := List.mem_iff_getElem?.1 hmem
        exact entry_launches hm h hfree hlook hwild ⟨text, i, rfl, by omega, hf, hname, rfl⟩ frame
      · push Not at hnamed
        have herror : (sysExecute k (some text) frame).2 = .error := by
          rw [sysExecute_result, if_neg hfree, execOutcome_eq, if_neg hshort,
            if_pos (lookup_missing hm h (firstWord_bytes text) (by omega) hnamed)]
        exact launchesPrograms_error herror

end Launch

/-- The first shell executes its own file. -/
theorem firstShell_launches_iff :
    LaunchesPrograms [shellFile] firstShell (some (asBytes "shell")) frame₀ ↔
      getFreePcb firstShell = none ∨ ¬NamesLookalike firstShell.fs [shellFile] (some (asBytes "shell")) ∧
        ¬NamesWild firstShell.fs [shellFile] (some (asBytes "shell")) := by
  have hlaunch : (pitHandler (entry shellBoot) frame₀ frame₀).2 = .launched 0x8048000 := by decide +kernel
  have hfiles : FilesOk [shellFile] 1 1 firstShell := firstShell_filesOk shellImage_layout hlaunch
  exact only_executables_launched_iff hfiles.mounted hfiles.layout _ _

/-- The entry of the directory has the inode number of the shell, and executing `.` launches the shell. -/
theorem directory_entry_launched :
    Mounted dotShell.fs ∧ Layout dotShell.fs.image [dotFile, shellFile] 1 1 ∧
      (sysExecute dotShell (some (asBytes ".")) frame₀).2 = .launched 0x8048000 ∧
      ¬LaunchesPrograms [dotFile, shellFile] dotShell (some (asBytes ".")) frame₀ := by
  have hlaunch : (pitHandler (entry dotBoot) frame₀ frame₀).2 = .launched 0x8048000 := by decide +kernel
  have hfiles : FilesOk [dotFile, shellFile] 1 1 dotShell := firstShell_filesOk dotImage_layout hlaunch
  have hdot : (sysExecute dotShell (some (asBytes ".")) frame₀).2 = .launched 0x8048000 := by decide +kernel
  refine ⟨hfiles.mounted, hfiles.layout, hdot, ?_⟩
  intro hlaunches
  obtain ⟨text, f, htext, hf, hname, hregular, -⟩ := hlaunches.launched _ hdot
  cases htext
  have hword : firstWord (asBytes ".") = asBytes "." := by decide
  rw [hword] at hname
  rcases List.mem_cons.1 hf with rfl | hf
  · exact absurd hregular (by decide)
  · rw [List.mem_singleton.1 hf] at hname
    exact absurd hname (by decide)

/-! ### Where the file is put -/

/-- The addresses `exec_file_load(inode, 0, 0x8048000, 4096*1024)` stores to. -/
def loadAddresses (fs : FileSystem) (inode : Nat) : List Nat :=
  if 0 = fs.word (1024 * (1 + inode)) then []
  else (readDataTrace fs inode 0 (4096 * 1024)).bytes.map fun b => 0x8048000 + b.index

/-- The load of the file stores only to the 4MB page of the process, and a file that fits is there, from `0x8048000` on,
when the process is entered. -/
structure LoadsInside (k : Kernel) (command : Option (List UInt8)) (frame : Frame) (inode : Nat)
    (contents : List UInt8) : Prop where
  stores : ∀ a ∈ loadAddresses k.fs inode, 0x8000000 ≤ a ∧ a < 0x8400000
  placed : 0x8048000 + contents.length ≤ 0x8400000 → ∃ k' eip,
    sysExecute k command frame = (k', .launched eip) ∧
      ∀ j < contents.length, contents[j]? = some (k'.userMem k'.pidCounter (0x8048000 + j - 0x8000000))

section Load

variable {fs : FileSystem} {inode : Nat} {contents : List UInt8}

/-- The load is the whole file. -/
private theorem execFileLoad_eq (h : Holds fs inode contents) : execFileLoad fs inode 0 (4096 * 1024) = contents := by
  have hsize := h.size
  unfold execFileLoad
  split
  · next hzero =>
    rw [h.length] at hzero
    exact (List.length_eq_zero_iff.1 hzero.symm).symm
  · rw [readData_spec h (Nat.zero_le _) (by omega), List.drop_zero, List.take_of_length_le (by omega)]

private theorem loadAddresses_eq (h : Holds fs inode contents) :
    loadAddresses fs inode = (List.range contents.length).map fun j => 0x8048000 + j := by
  have hsize := h.size
  unfold loadAddresses
  split
  · next hzero =>
    rw [h.length] at hzero
    rw [← hzero]
    rfl
  · obtain ⟨hbytes, hindex⟩ := readDataTrace_bytes fs inode 0 (4096 * 1024)
    have hdata : readData fs inode 0 (4096 * 1024) = contents := by
      rw [readData_spec h (Nat.zero_le _) (by omega), List.drop_zero, List.take_of_length_le (by omega)]
    have hlength : (readDataTrace fs inode 0 (4096 * 1024)).bytes.length = contents.length := by
      rw [← hdata, ← hbytes, List.length_map]
    rw [hlength] at hindex
    rw [← hindex, List.map_map]
    rfl

private theorem loadAddresses_inside_iff (h : Holds fs inode contents) :
    (∀ a ∈ loadAddresses fs inode, 0x8000000 ≤ a ∧ a < 0x8400000) ↔ contents.length ≤ 0x3B8000 := by
  rw [loadAddresses_eq h]
  simp only [List.mem_map, List.mem_range, forall_exists_index, and_imp, forall_apply_eq_imp_iff₂]
  constructor
  · intro hinside
    by_contra hlong
    have hlast := hinside 0x3B8000 (by omega)
    omega
  · intro hlength j hj
    omega

end Load

/-- The frame of the new process holds the bytes that were copied. -/
private theorem launch_userMem (k : Kernel) (stored : List UInt8) (frame : Frame) {j : Nat} (hj : j < stored.length) :
    stored[j]? =
      some ((launch k stored frame).userMem (launch k stored frame).pidCounter (0x8048000 + j - 0x8000000)) := by
  have haddress : 0x8048000 + j - 0x8000000 = 0x48000 + j := by omega
  have hin : 0x48000 ≤ 0x48000 + j ∧ 0x48000 + j < 0x48000 + stored.length := by omega
  have hindex : 0x48000 + j - 0x48000 = j := Nat.add_sub_cancel_left _ _
  rw [haddress]
  simp only [launch, Kernel.setPcb, Kernel.setTerminal, Function.update_self]
  rw [if_pos hin, hindex, List.getD_eq_getElem _ _ hj, List.getElem?_eq_getElem hj]

/-- The load of a program stays in the user page exactly when the program fits between `0x8048000` and its end. -/
theorem load_inside_iff {k : Kernel} {files : List File} {inodes blocks : Nat} (hm : Mounted k.fs)
    (h : Layout k.fs.image files inodes blocks) (hfree : getFreePcb k ≠ none) {text : List UInt8}
    (hargs : (firstWord (afterWord text)).length ≤ 32) {i : Nat} {f : File} (hf : files[i]? = some f)
    (hname : f.name = firstWord text) (hregular : f.filetype = 2)
    (hcheck : ∃ eip, execCheck k.fs (wordAt k.fs.image (64 * (i + 1) + 36)) = some eip ∧ eip ≠ -1) (frame : Frame) :
    LoadsInside k (some text) frame (wordAt k.fs.image (64 * (i + 1) + 36)) f.contents ↔
      f.contents.length ≤ 0x3B8000 := by
  have hholds := h.holds hm hf hregular
  rw [(h.dentry hm hf).2.2] at hholds
  rw [← loadAddresses_inside_iff hholds]
  constructor
  · exact LoadsInside.stores
  · intro hinside
    have hfits : ¬0x8048000 + f.contents.length > 0x8400000 := by
      have hlength := (loadAddresses_inside_iff hholds).1 hinside
      omega
    refine ⟨hinside, fun _ => ?_⟩
    obtain ⟨eip, hcheck, heip⟩ := hcheck
    have hresult := sysExecute_file hm h hfree ⟨text, i, rfl, hargs, hf, hname, rfl⟩ frame
    rw [fileOutcome, hcheck] at hresult
    dsimp only at hresult
    rw [if_neg heip, execFileLoad_eq hholds, if_neg hfits] at hresult
    obtain ⟨text', pid, htext, -, -, -, hstate⟩ := sysExecute_launched_eq hresult
    cases htext
    have hinode := (lookup_found hm h hf).2
    rw [hname] at hinode
    rw [hinode, execFileLoad_eq hholds] at hstate
    refine ⟨_, _, Prod.ext hstate hresult, ?_⟩
    intro j hj
    exact launch_userMem _ _ _ hj

/-- A program that does not fit faults on the first byte behind the page. -/
private theorem load_faults {k : Kernel} {files : List File} {inodes blocks : Nat} (hm : Mounted k.fs)
    (h : Layout k.fs.image files inodes blocks) (hfree : getFreePcb k ≠ none) {text : List UInt8}
    (hargs : (firstWord (afterWord text)).length ≤ 32) {i : Nat} {f : File} (hf : files[i]? = some f)
    (hname : f.name = firstWord text) (hregular : f.filetype = 2)
    (hcheck : ∃ eip, execCheck k.fs (wordAt k.fs.image (64 * (i + 1) + 36)) = some eip ∧ eip ≠ -1)
    (hlarge : 0x3B8000 < f.contents.length) (frame : Frame) : (sysExecute k (some text) frame).2 = .faulted := by
  have hholds := h.holds hm hf hregular
  rw [(h.dentry hm hf).2.2] at hholds
  have hover : 0x8048000 + f.contents.length > 0x8400000 := by omega
  obtain ⟨eip, hcheck, heip⟩ := hcheck
  rw [sysExecute_file hm h hfree ⟨text, i, rfl, hargs, hf, hname, rfl⟩, fileOutcome, hcheck]
  dsimp only
  rw [if_neg heip, execFileLoad_eq hholds, if_pos hover]

/-- The load of the shell. -/
theorem firstShell_load_inside_iff :
    LoadsInside firstShell (some (asBytes "shell")) frame₀ (wordAt firstShell.fs.image (64 * (0 + 1) + 36))
        shellFile.contents ↔ shellFile.contents.length ≤ 0x3B8000 := by
  have hlaunch : (pitHandler (entry shellBoot) frame₀ frame₀).2 = .launched 0x8048000 := by decide +kernel
  have hfiles : FilesOk [shellFile] 1 1 firstShell := firstShell_filesOk shellImage_layout hlaunch
  exact load_inside_iff hfiles.mounted hfiles.layout (by decide +kernel) (by decide) rfl (by decide) rfl
    ⟨0x8048000, by decide +kernel, by decide⟩ frame₀

/-! ### A machine with one large program -/

/-- The boot block of an image with one inode, 1023 data blocks and the program `big`. -/
def bigBootBlock (a : Nat) : UInt8 :=
  if a = 0 ∨ a = 4 then 1
  else if a = 8 then 0xFF
  else if a = 9 then 0x03
  else if 64 ≤ a ∧ a < 67 then (asBytes "big").getD (a - 64) 0
  else if a = 96 then 2
  else 0

/-- That image, with a file of `n` bytes in its data blocks in order. -/
def bigImage (n : Nat) : Nat → UInt8 := fun a =>
  if a < 4096 then bigBootBlock a
  else if a < 4100 then (wordBytes n).getD (a - 4096) 0
  else if a < 8192 then (wordBytes ((a - 4100) / 4)).getD (a % 4) 0
  else if a < 8196 then ([0x7F, 0x45, 0x4C, 0x46] : List UInt8).getD (a - 8192) 0
  else if 8216 ≤ a ∧ a < 8220 then ([0x00, 0x80, 0x04, 0x08] : List UInt8).getD (a - 8216) 0
  else 0

def bigFile (n : Nat) (hn : n ≤ 1023 * 4096) : File where
  name := asBytes "big"
  filetype := 2
  contents := (List.range n).map fun j => bigImage n (8192 + j)
  nameLength := by decide
  nameBytes := by decide
  filetypeLe := Nat.le_refl 2
  size := by rwa [List.length_map, List.length_range]

def bigFs (n : Nat) : FileSystem :=
  (dirOpen ⟨0x420000, bigImage n, ⟨0, 0, 0, fun _ => emptyDentry⟩, 0, false⟩ (cString (asBytes "."))).1

private theorem wordAt_wordBytes {m : Nat → UInt8} {a x : Nat} (hx : x < 4294967296)
    (h : ∀ i < 4, m (a + i) = (wordBytes x).getD i 0) : wordAt m a = x := by
  have h0 : (m a).toNat = x % 256 := congrArg UInt8.toNat (h 0 (by omega))
  have h1 : (m (a + 1)).toNat = x / 0x100 % 256 := congrArg UInt8.toNat (h 1 (by omega))
  have h2 : (m (a + 2)).toNat = x / 0x10000 % 256 := congrArg UInt8.toNat (h 2 (by omega))
  have h3 : (m (a + 3)).toNat = x / 0x1000000 % 256 := congrArg UInt8.toNat (h 3 (by omega))
  unfold wordAt
  rw [h0, h1, h2, h3]
  omega

private theorem bigImage_boot {n a : Nat} (ha : a + 3 < 4096) : wordAt (bigImage n) a = wordAt bigBootBlock a := by
  have hbyte : ∀ i < 4, bigImage n (a + i) = bigBootBlock (a + i) := fun i hi => if_pos (by omega)
  unfold wordAt
  rw [hbyte 1 (by omega), hbyte 2 (by omega), hbyte 3 (by omega), ← Nat.add_zero a, hbyte 0 (by omega)]

private theorem bigImage_length {n : Nat} (hn : n ≤ 1023 * 4096) : wordAt (bigImage n) 4096 = n := by
  refine wordAt_wordBytes (by omega) ?_
  intro i hi
  have hboot : ¬4096 + i < 4096 := by omega
  have hin : 4096 + i < 4100 := by omega
  simp [bigImage, hboot, hin]

private theorem bigImage_entry {n b : Nat} (hb : b < 1023) : wordAt (bigImage n) (4096 + 4 * (1 + b)) = b := by
  refine wordAt_wordBytes (by omega) ?_
  intro i hi
  have hboot : ¬4096 + 4 * (1 + b) + i < 4096 := by omega
  have hlength : ¬4096 + 4 * (1 + b) + i < 4100 := by omega
  have hin : 4096 + 4 * (1 + b) + i < 8192 := by omega
  have hdiv : (4096 + 4 * (1 + b) + i - 4100) / 4 = b := by omega
  have hmod : (4096 + 4 * (1 + b) + i) % 4 = i := by omega
  unfold bigImage
  rw [if_neg hboot, if_neg hlength, if_pos hin, hdiv, hmod]

private theorem bigFile_length {n : Nat} (hn : n ≤ 1023 * 4096) : (bigFile n hn).contents.length = n := by
  rw [bigFile, List.length_map, List.length_range]

private theorem bigImage_inode {n : Nat} (hn : n ≤ 1023 * 4096) :
    InodeAt (bigImage n) 1 1023 0 (bigFile n hn).contents where
  inRange := by decide
  length := (bigImage_length hn).trans (bigFile_length hn).symm
  block b hb := by
    rw [bigFile_length hn] at hb
    rw [show 4096 * (1 + 0) = 4096 from rfl, bigImage_entry (by omega)]
    omega
  data j hj := by
    rw [bigFile_length hn] at hj
    have haddress : 4096 * (1 + 1 + j / 4096) + j % 4096 = 8192 + j := by omega
    rw [show 4096 * (1 + 0) = 4096 from rfl, bigImage_entry (by omega), haddress]
    unfold bigFile
    dsimp only
    rw [List.getElem?_map, List.getElem?_range hj]
    rfl

private theorem bigImage_layout (n : Nat) (hn : n ≤ 1023 * 4096) : Layout (bigImage n) [bigFile n hn] 1 1023 where
  count := by
    rw [bigImage_boot (by omega), List.length_singleton]
    decide +kernel
  inodeCount := by
    rw [bigImage_boot (by omega)]
    decide +kernel
  dataCount := by
    rw [bigImage_boot (by omega)]
    decide +kernel
  atMost := by simp
  distinct := by simp
  entry i f hf := by
    have hi : i = 0 := by
      have hlt := (List.getElem?_eq_some_iff.1 hf).1
      simpa using hlt
    subst hi
    simp only [List.getElem?_cons_zero, Option.some.injEq] at hf
    subst hf
    have hname : ∀ j < 32, bigImage n (64 * (0 + 1) + j) = bigBootBlock (64 + j) := fun j hj => if_pos (by omega)
    refine ⟨⟨3, by decide, ?_, fun _ => ⟨?_, rfl⟩⟩, ?_, fun _ => ?_⟩
    · have hspelled : ∀ j < 3, bigBootBlock (64 + j) = cString (asBytes "big") j ∧ bigBootBlock (64 + j) ≠ 0 := by
        decide +kernel
      intro j hj
      dsimp only
      rw [hname j (by omega)]
      exact hspelled j hj
    · dsimp only
      rw [hname 3 (by omega)]
      decide +kernel
    · have htype : wordAt bigBootBlock (64 * (0 + 1) + 32) = 2 := by decide +kernel
      rw [bigImage_boot (by omega), htype]
      rfl
    · have hinode : wordAt (bigImage n) (64 * (0 + 1) + 36) = 0 := by
        rw [bigImage_boot (by omega)]
        decide +kernel
      rw [hinode]
      exact bigImage_inode hn
  fits := by decide

private theorem bigFs_image (n : Nat) : (bigFs n).image = bigImage n := by
  have hname : ¬cString (asBytes ".") 0 ≠ 0x2E := by decide
  unfold bigFs dirOpen
  rw [if_neg hname]
  rfl

/-- A program of one byte more than there is room for: the copy goes past the end of the user page. -/
theorem large_program_overruns_page :
    ∃ f, Mounted (bigFs 0x3B8001) ∧ Layout (bigFs 0x3B8001).image [f] 1 1023 ∧ f.name = asBytes "big" ∧
      f.filetype = 2 ∧ f.contents.length = 0x3B8001 ∧ execCheck (bigFs 0x3B8001) 0 = some 0x8048000 ∧
      (sysExecute { firstShell with fs := bigFs 0x3B8001 } (some (asBytes "big")) frame₀).2 = .faulted ∧
      ¬LoadsInside { firstShell with fs := bigFs 0x3B8001 } (some (asBytes "big")) frame₀ 0 f.contents := by
  have hn : 0x3B8001 ≤ 1023 * 4096 := by omega
  have hlength := bigFile_length hn
  have hmounted : Mounted (bigFs 0x3B8001) := dirOpen_mounted rfl rfl
  have hlayout : Layout (bigFs 0x3B8001).image [bigFile 0x3B8001 hn] 1 1023 := by
    rw [bigFs_image]
    exact bigImage_layout _ hn
  have hcheck : execCheck (bigFs 0x3B8001) 0 = some 0x8048000 := by decide +kernel
  have hinode : wordAt (bigFs 0x3B8001).image (64 * (0 + 1) + 36) = 0 := by decide +kernel
  have hholds : Holds (bigFs 0x3B8001) 0 (bigFile 0x3B8001 hn).contents := by
    have hfile := hlayout.holds hmounted (i := 0) rfl rfl
    rwa [(hlayout.dentry hmounted (i := 0) rfl).2.2, hinode] at hfile
  refine ⟨bigFile 0x3B8001 hn, hmounted, hlayout, rfl, rfl, hlength, hcheck, ?_, ?_⟩
  · have hfree : getFreePcb { firstShell with fs := bigFs 0x3B8001 } ≠ none := by decide +kernel
    have hargs : (firstWord (afterWord (asBytes "big"))).length ≤ 32 := by decide
    have hname : asBytes "big" = firstWord (asBytes "big") := by decide
    rw [← hinode] at hcheck
    exact load_faults (k := { firstShell with fs := bigFs 0x3B8001 }) hmounted hlayout hfree hargs (i := 0) rfl hname
      rfl ⟨_, hcheck, by decide⟩ (by omega) frame₀
  · intro hinside
    have hfits := (loadAddresses_inside_iff hholds).1 hinside.stores
    rw [hlength] at hfits
    omega

end BigChungOS
