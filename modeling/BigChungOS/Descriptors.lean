import BigChungOS.Lib.Runs
import BigChungOS.Timer

/-!
# The descriptor table as a partial map

A process sees its descriptor table as a partial map from descriptors to open files (`openFiles`).  Descriptors 0 and 1
are always open on the terminal; `sys_open` adds the least free one of 2..7, `sys_close` removes one, reads move a
position, and nothing else changes (`CallsRefine`).

The table behind it has more in it than the map: the operations, type and position of the slots that are closed.  What
makes it a refinement is `FdtOk`: the operations of an open slot match its type, and a closed slot has position 0
whatever was open in it, so that the next file opened there starts at its beginning.
-/

namespace BigChungOS

open Memory Transition

/-! ### The partial map -/

/-- An open file, as the process that opened it sees it. -/
structure Descriptor where
  fop : Fop
  fileType : Int
  inode : Nat
  position : Nat
deriving DecidableEq

/-- The partial map of a descriptor table. -/
def openFiles (fdt : Fin 8 → FdTable) (d : Fin 8) : Option Descriptor :=
  if (fdt d).exists_ then
    some
      { fop := (fdt d).fop_, fileType := (fdt d).fileType, inode := (fdt d).inode, position := (fdt d).fileBytesRead }
  else none

/-- All the descriptors `sys_open` gives out are open. -/
def Full (fdt : Fin 8 → FdTable) : Prop := ∀ d : Fin 8, 2 ≤ d.val → openFiles fdt d ≠ none

/-- The operations a file type stands for. -/
def TypeMatches (fileType : Int) (fop : Fop) : Prop :=
  (fileType = 0 ∧ fop = .rtc) ∨ (fileType = 1 ∧ fop = .dir) ∨ (fileType = 2 ∧ fop = .file)

/-- What a descriptor table keeps. -/
structure FdtOk (fdt : Fin 8 → FdTable) : Prop where
  std : ∀ d : Fin 8, d.val < 2 → (fdt d).exists_ = true ∧ (fdt d).fop_ = .terminal
  matching : ∀ d : Fin 8, 2 ≤ d.val → (fdt d).exists_ = true → TypeMatches (fdt d).fileType (fdt d).fop_
  closed : ∀ d, (fdt d).exists_ = false → (fdt d).fileBytesRead = 0
  position : ∀ d, (fdt d).fop_ ≠ .file → (fdt d).exists_ = true → (fdt d).fileBytesRead = 0

theorem openFiles_eq_none {fdt : Fin 8 → FdTable} {d : Fin 8} : openFiles fdt d = none ↔ (fdt d).exists_ = false := by
  unfold openFiles
  split_ifs with h <;> simp [h]

/-- A store to one slot is a change of the map at one descriptor. -/
private theorem openFiles_update (fdt : Fin 8 → FdTable) (d : Fin 8) (e : FdTable) :
    openFiles (Function.update fdt d e) = Function.update (openFiles fdt) d
      (if e.exists_ then
        some { fop := e.fop_, fileType := e.fileType, inode := e.inode, position := e.fileBytesRead } else none) := by
  funext c
  by_cases hc : c = d
  · subst hc; simp [openFiles]
  · simp [openFiles, hc]

private theorem initFdt_ok (fdt : Fin 8 → FdTable) : FdtOk (initFdt fdt) where
  std d hd := by simp [initFdt, hd]
  matching d hd hopen := by
    have hd' : ¬d.val < 2 := by omega
    simp [initFdt, hd'] at hopen
  closed d _ := by
    unfold initFdt
    split_ifs <;> rfl
  position d _ _ := by
    unfold initFdt
    split_ifs <;> rfl

/-- A new process has descriptors 0 and 1. -/
private theorem initFdt_openFiles (fdt : Fin 8 → FdTable) (d : Fin 8) :
    (openFiles (initFdt fdt) d).isSome = true ↔ d.val < 2 := by
  unfold openFiles initFdt
  split_ifs <;> simp_all

/-- Storing a slot from 2 on that is right by itself. -/
theorem FdtOk.update {fdt : Fin 8 → FdTable} (h : FdtOk fdt) {d : Fin 8} {e : FdTable} (hd : 2 ≤ d.val)
    (hmatch : e.exists_ = true → TypeMatches e.fileType e.fop_) (hclosed : e.exists_ = false → e.fileBytesRead = 0)
    (hpos : e.fop_ ≠ .file → e.exists_ = true → e.fileBytesRead = 0) : FdtOk (Function.update fdt d e) where
  std c hc := by
    have hne : c ≠ d := by rintro rfl; omega
    simpa [hne] using h.std c hc
  matching c hc := by
    by_cases hcd : c = d
    · subst hcd; simpa using hmatch
    · simpa [hcd] using h.matching c hc
  closed c := by
    by_cases hcd : c = d
    · subst hcd; simpa using hclosed
    · simpa [hcd] using h.closed c
  position c := by
    by_cases hcd : c = d
    · subst hcd; simpa using hpos
    · simpa [hcd] using h.position c

/-! ### The calls -/

/-- `k'` differs from `k` in nothing that the other processes' descriptors or the lookup of names depend on. -/
structure CallsOnly (k k' : Kernel) : Prop where
  fs : ∃ n, k'.fs = { k.fs with currDir := n }
  pidCounter : k'.pidCounter = k.pidCounter
  prevPid : k'.prevPid = k.prevPid
  inUse : k'.inUse = k.inUse
  pcb : ∀ p ≠ k.pidCounter, k'.allPcbs p = k.allPcbs p

theorem FilesOnly.callsOnly {k k' : Kernel} (h : FilesOnly k k') : CallsOnly k k' where
  fs := h.fs
  pidCounter := h.pidCounter
  prevPid := h.prevPid
  inUse := funext h.inUse
  pcb p hp := by
    obtain ⟨fdt, hfdt⟩ := h.pcbs
    rw [hfdt, Function.update_of_ne hp]

/-- The tables of the running process, the one to resume and all in use are right, and so is the directory. -/
structure SlotsOk (k : Kernel) : Prop where
  fdt : ∀ p, (k.inUse p = true ∨ p = k.pidCounter ∨ p = k.prevPid) → FdtOk (k.allPcbs p).fdt
  dirIsOpen : k.fs.dirIsOpen = true
  dirCount : k.fs.bootBlockMain.dirCount < 4294967296
  types : ∀ i < k.fs.bootBlockMain.dirCount,
    (k.fs.bootBlockMain.direntries i).filetype = 0 ∨ (k.fs.bootBlockMain.direntries i).filetype = 1 ∨
      (k.fs.bootBlockMain.direntries i).filetype = 2

theorem SlotsOk.running {k : Kernel} (h : SlotsOk k) : FdtOk k.fdt := h.fdt k.pidCounter (.inr (.inl rfl))

theorem SlotsOk.call {k k' : Kernel} (h : SlotsOk k) (hc : CallsOnly k k') (hf : FdtOk k'.fdt) : SlotsOk k' where
  fdt p hp := by
    by_cases hpid : p = k.pidCounter
    · rw [hpid, ← hc.pidCounter]
      exact hf
    · rw [hc.pcb p hpid]
      rw [hc.inUse, hc.pidCounter, hc.prevPid] at hp
      exact h.fdt p hp
  dirIsOpen := by
    obtain ⟨n, hn⟩ := hc.fs
    rw [hn]
    exact h.dirIsOpen
  dirCount := by
    obtain ⟨n, hn⟩ := hc.fs
    rw [hn]
    exact h.dirCount
  types := by
    obtain ⟨n, hn⟩ := hc.fs
    rw [hn]
    exact h.types

theorem setFd_fdt (k : Kernel) (d : Fin 8) (f : FdTable → FdTable) :
    (k.setFd d f).fdt = Function.update k.fdt d (f (k.fdt d)) := by
  simp [Kernel.setFd, Kernel.fdt]

theorem fdIndex_val {fd : Int} (h : 0 ≤ fd ∧ fd < 8) : ((fdIndex fd).val : Int) = fd := by
  have hmod : fd.toNat % 8 = fd.toNat := Nat.mod_eq_of_lt (by omega)
  simp only [fdIndex, Fin.ofNat, hmod]
  omega

theorem readDentryByName_none {fs : FileSystem} {fname : Nat → UInt8} (h : findDentry fs fname = none)
    (dentry : DentryT) : readDentryByName fs fname dentry = (dentry, -1) := by
  simp [readDentryByName, h]

theorem readDentryByName_some {fs : FileSystem} {fname : Nat → UInt8} {i : Nat} (h : findDentry fs fname = some i)
    (hcount : fs.bootBlockMain.dirCount < 4294967296) (dentry : DentryT) :
    (readDentryByName fs fname dentry).1.filetype = (fs.bootBlockMain.direntries i).filetype ∧
      (readDentryByName fs fname dentry).1.inodeNum = (fs.bootBlockMain.direntries i).inodeNum ∧
      (readDentryByName fs fname dentry).2 ≠ -1 := by
  have hi := (findDentry_eq_some_iff.1 h).1
  simp only [readDentryByName, h, readDentryByIndex, if_pos hi]
  refine ⟨trivial, trivial, ?_⟩
  -- the index is below the count, so its 32-bit value is not -1
  unfold toInt32
  omega

section Calls

variable {k : Kernel}

/-! #### `sys_open` -/

/-- `sys_open` finds the least free descriptor. -/
theorem freeFd_eq_some {fdt : Fin 8 → FdTable} {d : Fin 8} (h : freeFd fdt = some d) :
    2 ≤ d.val ∧ openFiles fdt d = none ∧ ∀ c : Fin 8, 2 ≤ c.val → c < d → openFiles fdt c ≠ none := by
  have hmem := List.mem_of_find?_eq_some h
  obtain ⟨hd, hless⟩ := Slots.find?_least (by decide) h
  refine ⟨by fin_cases hmem <;> simp, openFiles_eq_none.2 (by simpa using hd), ?_⟩
  intro c hc hlt hnone
  have hused := hless c (by fin_cases c <;> simp_all) hlt
  rw [openFiles_eq_none] at hnone
  simp [hnone] at hused

theorem freeFd_eq_none {fdt : Fin 8 → FdTable} : freeFd fdt = none ↔ Full fdt := by
  unfold freeFd Full
  rw [List.find?_eq_none]
  constructor
  · intro h d hd hnone
    rw [openFiles_eq_none] at hnone
    have := h d (by fin_cases d <;> simp_all)
    simp [hnone] at this
  · intro h d hd hfree
    have htwo : 2 ≤ d.val := by fin_cases hd <;> simp
    exact h d htwo (openFiles_eq_none.2 (by simpa using hfree))

private theorem fopOfType_matches {filetype : Int} (h : filetype = 0 ∨ filetype = 1 ∨ filetype = 2) (old : Fop) :
    TypeMatches filetype (fopOfType filetype old) := by
  rcases h with rfl | rfl | rfl
  · exact .inl ⟨rfl, rfl⟩
  · exact .inr (.inl ⟨rfl, rfl⟩)
  · exact .inr (.inr ⟨rfl, rfl⟩)

/-- The `open` of a file type's operations touches the clock or the directory position. -/
theorem fopOpen_spec {k : Kernel} {filetype : Int} {fop : Fop} (h : TypeMatches filetype fop)
    (hopen : k.fs.dirIsOpen = true) (filename : Nat → UInt8) :
    ∃ k', fopOpen k filename fop = some k' ∧ FilesOnly k k' ∧ k'.allPcbs = k.allPcbs := by
  rcases h with ⟨-, rfl⟩ | ⟨-, rfl⟩ | ⟨-, rfl⟩
  · exact ⟨_, rfl, { FilesOnly.refl k with }, rfl⟩
  · have hfs : ∃ n, (dirOpen k.fs filename).1 = { k.fs with currDir := n } := by
      unfold dirOpen
      split_ifs
      · exact ⟨k.fs.currDir, rfl⟩
      · exact ⟨0, rfl⟩
    exact ⟨_, rfl, { FilesOnly.refl k with fs := hfs }, rfl⟩
  · exact ⟨k, rfl, FilesOnly.refl k, rfl⟩

/-- A successful `sys_open` of the file of `e`: it adds the least free descriptor. -/
structure Opens (k : Kernel) (filename : Nat → UInt8) (e : DentryT) (k' : Kernel) (d : Fin 8) : Prop where
  result : sysOpen k filename = some (k', (d.val : Int))
  least : 2 ≤ d.val ∧ openFiles k.fdt d = none ∧ ∀ c : Fin 8, 2 ≤ c.val → c < d → openFiles k.fdt c ≠ none
  added : ∃ fop, TypeMatches e.filetype fop ∧ openFiles k'.fdt = Function.update (openFiles k.fdt) d
    (some { fop := fop, fileType := e.filetype, inode := e.inodeNum, position := 0 })
  records : ∀ c ≠ d, k'.fdt c = k.fdt c
  only : CallsOnly k k'

theorem sysOpen_none (h : SlotsOk k) {filename : Nat → UInt8} (hfail : (∀ i, ¬Names k.fs filename i) ∨ Full k.fdt) :
    sysOpen k filename = some (k, -1) := by
  unfold sysOpen
  dsimp only
  cases hfind : findDentry k.fs filename with
  | none => rw [readDentryByName_none hfind, if_pos rfl]
  | some i =>
    obtain ⟨-, -, hret⟩ := readDentryByName_some hfind h.dirCount emptyDentry
    rw [if_neg hret]
    rcases hfail with hnone | hfull
    · exact absurd (findDentry_eq_some_iff.1 hfind) (hnone i)
    · rw [freeFd_eq_none.2 hfull]

theorem sysOpen_some (h : SlotsOk k) {filename : Nat → UInt8} {i : Nat} (hname : Names k.fs filename i)
    (hroom : ¬Full k.fdt) :
    ∃ k' d, Opens k filename (k.fs.bootBlockMain.direntries i) k' d ∧ SlotsOk k' := by
  obtain ⟨htype, hinode, hret⟩ := readDentryByName_some (findDentry_eq_some_iff.2 hname) h.dirCount emptyDentry
  have hi := hname.1
  cases hfree : freeFd k.fdt with
  | none => exact absurd (freeFd_eq_none.1 hfree) hroom
  | some d =>
    obtain ⟨htwo, hclosed, hleast⟩ := freeFd_eq_some hfree
    generalize hr : readDentryByName k.fs filename emptyDentry = r at htype hinode hret
    -- the slot as `sys_open` fills it
    let e : FdTable :=
      { fop_ := fopOfType r.1.filetype (k.fdt d).fop_
        fileType := r.1.filetype
        filename := fun i => if i < 32 then r.1.filename i else (k.fdt d).filename i
        exists_ := true
        fileBytesRead := (k.fdt d).fileBytesRead
        inode := r.1.inodeNum }
    have hpos : (k.fdt d).fileBytesRead = 0 := h.running.closed d (openFiles_eq_none.1 hclosed)
    have hmatch : TypeMatches e.fileType e.fop_ := by
      have htypes := h.types i hi
      rw [← htype] at htypes
      exact fopOfType_matches htypes _
    let k₁ := k.setFd d fun _ => e
    have hk₁ : FilesOnly k k₁ := setFd_filesOnly k d _
    have hfdt₁ : k₁.fdt = Function.update k.fdt d e := setFd_fdt k d _
    have hfop : (k₁.fdt d).fop_ = e.fop_ := by rw [hfdt₁, Function.update_self]
    obtain ⟨k', hopen, honly, hpcbs⟩ := fopOpen_spec (k := k₁) hmatch h.dirIsOpen filename
    have hfdt' : k'.fdt = Function.update k.fdt d e := by
      rw [Kernel.fdt, hpcbs, honly.pidCounter, ← hfdt₁, Kernel.fdt]
    have hcalls : CallsOnly k k' := (hk₁.trans honly).callsOnly
    refine ⟨k', d, ⟨?_, ⟨htwo, hclosed, hleast⟩, ⟨e.fop_, ?_, ?_⟩, ?_, hcalls⟩, ?_⟩
    · unfold sysOpen
      simp only [hr, hret, hfree, if_false]
      show (fopOpen k₁ filename (k₁.fdt d).fop_).map _ = _
      rw [hfop, hopen]
      rfl
    · rw [← htype]
      exact hmatch
    · rw [hfdt', openFiles_update, ← htype, ← hinode, ← hpos]
      rfl
    · intro c hc
      rw [hfdt', Function.update_of_ne hc]
    · refine h.call hcalls ?_
      rw [hfdt']
      exact h.running.update htwo (fun _ => hmatch) (fun hfalse => by cases hfalse) fun _ _ => hpos

/-- All that a `sys_open` can do: fail and change nothing, or open the entry of that name. -/
theorem SlotsOk.sysOpen_cases (h : SlotsOk k) {filename : Nat → UInt8} {r : Int} {k' : Kernel}
    (hopen : sysOpen k filename = some (k', r)) :
    (r = -1 ∧ k' = k) ∨ ∃ (i : Nat) (d : Fin 8), r = d.val ∧ Names k.fs filename i ∧
      Opens k filename (k.fs.bootBlockMain.direntries i) k' d ∧ SlotsOk k' := by
  by_cases hfail : (∀ i, ¬Names k.fs filename i) ∨ Full k.fdt
  · rw [sysOpen_none h hfail, Option.some.injEq, Prod.mk.injEq] at hopen
    exact .inl ⟨hopen.2.symm, hopen.1.symm⟩
  · push Not at hfail
    obtain ⟨⟨i, hname⟩, hroom⟩ := hfail
    obtain ⟨k'', d, hopens, hk''⟩ := sysOpen_some h hname hroom
    have hsame := hopens.result
    rw [hopen, Option.some.injEq, Prod.mk.injEq] at hsame
    obtain ⟨rfl, hr⟩ := hsame
    exact .inr ⟨i, d, hr, hname, hopens, hk''⟩

/-! #### `sys_close` -/

/-- A descriptor that is open and may be closed. -/
def Closable (k : Kernel) (fd : Int) : Prop := 2 ≤ fd ∧ fd < 8 ∧ openFiles k.fdt (fdIndex fd) ≠ none

theorem sysClose_fails {fd : Int} (h : ¬Closable k fd) : sysClose k fd = (k, -1) := by
  unfold sysClose
  dsimp only
  split
  · rfl
  · next hrange =>
    have hclosed : openFiles k.fdt (fdIndex fd) = none := by
      by_contra hopen
      exact h ⟨by omega, by omega, hopen⟩
    rw [openFiles_eq_none] at hclosed
    simp [hclosed]

/-- Closing leaves the slot closed, at position 0. -/
theorem sysClose_fdt (hf : FdtOk k.fdt) {fd : Int} (h : Closable k fd) :
    (sysClose k fd).2 = 0 ∧ (sysClose k fd).1.fdt = Function.update k.fdt (fdIndex fd)
      { k.fdt (fdIndex fd) with exists_ := false, fileBytesRead := 0 } := by
  obtain ⟨hlo, hhi, hopen⟩ := h
  have hval : ((fdIndex fd).val : Int) = fd := fdIndex_val ⟨by omega, hhi⟩
  have hexists : (k.fdt (fdIndex fd)).exists_ = true := by
    rw [Ne, openFiles_eq_none] at hopen
    simpa using hopen
  have hrange : ¬(fd ≤ 1 ∨ fd ≥ 8) := by omega
  unfold sysClose
  simp only [hrange, hexists, if_false, if_true, true_and]
  -- the handlers of the clock and of directories leave the slot to `sys_close`
  have hsame : (fopClose k (fdIndex fd) (k.fdt (fdIndex fd)).fop_).fdt = k.fdt →
      (k.fdt (fdIndex fd)).fileBytesRead = 0 →
      ((fopClose k (fdIndex fd) (k.fdt (fdIndex fd)).fop_).setFd (fdIndex fd) fun e =>
          { e with exists_ := false }).fdt =
        Function.update k.fdt (fdIndex fd) { k.fdt (fdIndex fd) with exists_ := false, fileBytesRead := 0 } := by
    intro hfdt hpos
    rw [setFd_fdt, hfdt, ← hpos]
  rcases hf.matching (fdIndex fd) (by omega) hexists with ⟨-, hfop⟩ | ⟨-, hfop⟩ | ⟨-, hfop⟩
  · have hpos := hf.position (fdIndex fd) (by rw [hfop]; decide) hexists
    exact hsame (by rw [hfop]; rfl) hpos
  · have hpos := hf.position (fdIndex fd) (by rw [hfop]; decide) hexists
    exact hsame (by rw [hfop]; rfl) hpos
  · have hfile : fopClose k (fdIndex fd) (k.fdt (fdIndex fd)).fop_ =
        k.setFd (fdIndex fd) fun e => { e with exists_ := false, fileBytesRead := 0 } := by
      rw [hfop]
      simp only [fopClose, fileCloseHelper, hexists, if_true]
    rw [hfile, setFd_fdt, setFd_fdt]
    simp

theorem sysClose_slotsOk (h : SlotsOk k) (fd : Int) : SlotsOk (sysClose k fd).1 := by
  by_cases hc : Closable k fd
  · refine h.call (sysClose_filesOnly k fd).callsOnly ?_
    have hval : ((fdIndex fd).val : Int) = fd := fdIndex_val ⟨by have := hc.1; omega, hc.2.1⟩
    rw [(sysClose_fdt h.running hc).2]
    exact h.running.update (by have := hc.1; omega) (fun hfalse => by cases hfalse) (fun _ => rfl) fun _ _ => rfl
  · rw [sysClose_fails hc]
    exact h

/-! #### `sys_read` and `sys_write` -/

/-- A descriptor that is open and may be read. -/
def Readable (k : Kernel) (fd : Int) : Prop := 0 ≤ fd ∧ fd < 8 ∧ fd ≠ 1 ∧ openFiles k.fdt (fdIndex fd) ≠ none

/-- A descriptor that is open and may be written. -/
def Writable (k : Kernel) (fd : Int) : Prop := 0 < fd ∧ fd < 8 ∧ openFiles k.fdt (fdIndex fd) ≠ none

theorem sysRead_fails {fd : Int} {buf : Ptr} (h : ¬(Readable k fd ∧ buf ≠ none)) (nbytes : Int) :
    sysRead k fd buf nbytes = some (k, -1, []) := by
  unfold sysRead
  cases buf with
  | none => rfl
  | some b =>
    dsimp only
    split
    · rfl
    · next hrange =>
      have hclosed : openFiles k.fdt (fdIndex fd) = none := by
        by_contra hopen
        exact h ⟨⟨by omega, by omega, by omega, hopen⟩, by simp⟩
      rw [if_pos (openFiles_eq_none.1 hclosed)]

theorem sysWrite_fails {fd : Int} {buf : Ptr} (h : ¬(Writable k fd ∧ buf ≠ none)) (nbytes : Int) :
    sysWrite k fd buf nbytes = some (k, -1) := by
  unfold sysWrite
  cases buf with
  | none => rfl
  | some b =>
    dsimp only
    split
    · rfl
    · next hrange =>
      have hclosed : openFiles k.fdt (fdIndex fd) = none := by
        by_contra hopen
        exact h ⟨⟨by omega, by omega, hopen⟩, by simp⟩
      rw [if_pos (openFiles_eq_none.1 hclosed)]

theorem terminalRead_pcbs {k' : Kernel} {nbytes r : Int} {stored : List UInt8}
    (h : terminalRead k nbytes = some (k', r, stored)) : CallsOnly k k' ∧ k'.allPcbs = k.allPcbs := by
  obtain ⟨-, ⟨-, rfl, -⟩ | ⟨count, -, -, rfl, -⟩⟩ := terminalRead_cases h
  · exact ⟨(FilesOnly.refl k').callsOnly, rfl⟩
  · exact ⟨⟨⟨k.fs.currDir, rfl⟩, rfl, rfl, rfl, fun _ _ => rfl⟩, rfl⟩

theorem dirRead_fs (fs : FileSystem) : ∃ n, (dirRead fs).1 = { fs with currDir := n } := by
  unfold dirRead
  split_ifs
  · exact ⟨fs.currDir, rfl⟩
  · exact ⟨fs.currDir + 1, rfl⟩
  · exact ⟨0, rfl⟩

/-- A descriptor of a regular file that may be read. -/
def ReadsFile (k : Kernel) (fd : Int) : Prop := Readable k fd ∧ (k.fdt (fdIndex fd)).fop_ = .file

theorem Readable.exists {fd : Int} (h : Readable k fd) : (k.fdt (fdIndex fd)).exists_ = true := by
  obtain ⟨-, -, -, hopen⟩ := h
  rw [Ne, openFiles_eq_none] at hopen
  simpa using hopen

/-- A read of a regular file adds its result to the position, whatever it is. -/
theorem sysRead_file {fd : Int} (h : ReadsFile k fd) (buf : Nat → UInt8) (nbytes : Int) :
    sysRead k fd (some buf) nbytes =
      let r := fileRead k.fs (k.fdt (fdIndex fd)).inode (k.fdt (fdIndex fd)).fileBytesRead nbytes
      some (k.setFd (fdIndex fd) fun e => { e with fileBytesRead := toUInt32 (e.fileBytesRead + r.1) }, r.1, r.2) := by
  obtain ⟨hreadable, hfop⟩ := h
  have hexists := hreadable.exists
  obtain ⟨hlo, hhi, hone, -⟩ := hreadable
  have hrange : ¬(fd < 0 ∨ fd ≥ 8 ∨ fd = 1) := by omega
  simp only [sysRead, hrange, hexists, hfop, fopRead, fileReadHelper, Bool.true_eq_false, if_false, if_true]

/-- Every other read leaves the PCBs alone. -/
theorem sysRead_other {k' : Kernel} {fd nbytes r : Int} {buf : Ptr} {stored : List UInt8}
    (h : ¬(ReadsFile k fd ∧ buf ≠ none)) (hread : sysRead k fd buf nbytes = some (k', r, stored)) :
    CallsOnly k k' ∧ k'.allPcbs = k.allPcbs := by
  by_cases hreadable : Readable k fd ∧ buf ≠ none
  · obtain ⟨hreadable, hbuf⟩ := hreadable
    have hexists := hreadable.exists
    have hnot : (k.fdt (fdIndex fd)).fop_ ≠ .file := fun hfop => h ⟨⟨hreadable, hfop⟩, hbuf⟩
    obtain ⟨b, rfl⟩ := Option.ne_none_iff_exists'.1 hbuf
    obtain ⟨hlo, hhi, hone, -⟩ := hreadable
    have hrange : ¬(fd < 0 ∨ fd ≥ 8 ∨ fd = 1) := by omega
    simp only [sysRead, hrange, hexists, Bool.true_eq_false, if_false] at hread
    cases hfop : (k.fdt (fdIndex fd)).fop_ with
    | null => simp [hfop, fopRead] at hread
    | rtc =>
      simp only [hfop, fopRead, Option.some.injEq, Prod.mk.injEq] at hread
      obtain ⟨rfl, -⟩ := hread
      exact ⟨⟨⟨k.fs.currDir, rfl⟩, rfl, rfl, rfl, fun _ _ => rfl⟩, rfl⟩
    | dir =>
      simp only [hfop, fopRead, Option.some.injEq, Prod.mk.injEq] at hread
      obtain ⟨rfl, -⟩ := hread
      exact ⟨⟨dirRead_fs k.fs, rfl, rfl, rfl, fun _ _ => rfl⟩, rfl⟩
    | terminal =>
      simp only [hfop, fopRead] at hread
      exact terminalRead_pcbs hread
    | file => exact absurd hfop hnot
  · rw [sysRead_fails hreadable] at hread
    simp only [Option.some.injEq, Prod.mk.injEq] at hread
    obtain ⟨rfl, -⟩ := hread
    exact ⟨(FilesOnly.refl k).callsOnly, rfl⟩

/-- A read that returns has moved at most the position of its descriptor. -/
theorem sysRead_position {k' : Kernel} {fd nbytes r : Int} {buf : Ptr} {stored : List UInt8} (h : SlotsOk k)
    (hread : sysRead k fd buf nbytes = some (k', r, stored)) :
    (∃ n, k'.fdt = Function.update k.fdt (fdIndex fd) { k.fdt (fdIndex fd) with fileBytesRead := n }) ∧
      CallsOnly k k' ∧ SlotsOk k' := by
  by_cases hfile : ReadsFile k fd ∧ buf ≠ none
  · obtain ⟨hfile, hbuf⟩ := hfile
    obtain ⟨b, rfl⟩ := Option.ne_none_iff_exists'.1 hbuf
    rw [sysRead_file hfile] at hread
    simp only [Option.some.injEq, Prod.mk.injEq] at hread
    obtain ⟨rfl, -⟩ := hread
    have hexists := hfile.1.exists
    have htwo : 2 ≤ (fdIndex fd).val := by
      by_contra hstd
      have hterm := (h.running.std (fdIndex fd) (by omega)).2
      rw [hfile.2] at hterm
      cases hterm
    have hmatch := h.running.matching (fdIndex fd) htwo hexists
    have hc := (setFd_filesOnly k (fdIndex fd) fun e => { e with fileBytesRead := toUInt32 (e.fileBytesRead +
      (fileRead k.fs (k.fdt (fdIndex fd)).inode (k.fdt (fdIndex fd)).fileBytesRead nbytes).1) }).callsOnly
    refine ⟨⟨_, setFd_fdt k _ _⟩, hc, h.call hc ?_⟩
    rw [setFd_fdt]
    refine h.running.update htwo (fun _ => hmatch) (fun hfalse => ?_) fun hne => absurd hfile.2 hne
    rw [hexists] at hfalse
    cases hfalse
  · obtain ⟨hc, hpcbs⟩ := sysRead_other hfile hread
    have hfdt : k'.fdt = k.fdt := by rw [Kernel.fdt, hpcbs, hc.pidCounter, Kernel.fdt]
    refine ⟨⟨(k.fdt (fdIndex fd)).fileBytesRead, by rw [hfdt]; simp⟩, hc, h.call hc ?_⟩
    rw [hfdt]
    exact h.running

/-- A write changes no PCB. -/
theorem sysWrite_pcbs {k' : Kernel} {fd nbytes r : Int} {buf : Ptr} (hwrite : sysWrite k fd buf nbytes = some (k', r)) :
    CallsOnly k k' ∧ k'.allPcbs = k.allPcbs := by
  rcases sysWrite_cases hwrite with ⟨c, rfl⟩ | ⟨s, rfl⟩
  · exact ⟨⟨⟨k.fs.currDir, rfl⟩, rfl, rfl, rfl, fun _ _ => rfl⟩, rfl⟩
  · rw [puts_eq]
    exact ⟨⟨⟨k.fs.currDir, rfl⟩, rfl, rfl, rfl, fun _ _ => rfl⟩, rfl⟩

/-! #### `sys_execute` -/

theorem Failed.slotsOk {k' : Kernel} (h : SlotsOk k) (hf : Failed k k') : SlotsOk k' where
  fdt p hp := by
    have huse : k'.inUse p = k.inUse p := hf.inUse p
    rw [huse, hf.pidCounter, hf.prevPid] at hp
    rcases hf.fdt p with hsame | hnew
    · rw [hsame]
      exact h.fdt p (by tauto)
    · rw [hnew]
      exact initFdt_ok _
  dirIsOpen := by rw [hf.fs]; exact h.dirIsOpen
  dirCount := by rw [hf.fs]; exact h.dirCount
  types := by rw [hf.fs]; exact h.types

/-- A process with a new PCB joins those of `k`. -/
private theorem SlotsOk.newProcess {k' : Kernel} (h : SlotsOk k) (hfs : k'.fs = k.fs)
    (hprev : k'.prevPid = k.pidCounter)
    (hfdt : k'.fdt = initFdt (k.allPcbs k'.pidCounter).fdt)
    (hpcb : ∀ p ≠ k'.pidCounter, k'.allPcbs p = k.allPcbs p) : SlotsOk k' where
  fdt p hp := by
    by_cases hpid : p = k'.pidCounter
    · have hnew : FdtOk k'.fdt := by rw [hfdt]; exact initFdt_ok _
      rw [hpid]
      exact hnew
    · have huse : k'.inUse p = k.inUse p := by rw [Kernel.inUse, hpcb p hpid, Kernel.inUse]
      rw [huse, hprev] at hp
      rw [hpcb p hpid]
      exact h.fdt p (by tauto)
  dirIsOpen := by rw [hfs]; exact h.dirIsOpen
  dirCount := by rw [hfs]; exact h.dirCount
  types := by rw [hfs]; exact h.types

theorem Launched.slotsOk {k' : Kernel} {frame : Frame} (h : SlotsOk k) (hl : Launched k frame k') : SlotsOk k' :=
  h.newProcess hl.fs hl.prevPid hl.fdt hl.pcb

theorem Faulted.slotsOk {k' : Kernel} (h : SlotsOk k) (hf : Faulted k k') : SlotsOk k' :=
  h.newProcess hf.fs hf.prevPid hf.fdt hf.pcb

private theorem sysExecute_slotsOk (h : SlotsOk k) (command : Option (List UInt8)) (frame : Frame) :
    SlotsOk (sysExecute k command frame).1 := by
  cases hres : (sysExecute k command frame).2 with
  | error => exact (sysExecute_failed hres).slotsOk h
  | launched eip => exact (sysExecute_launched hres).slotsOk h
  | faulted => exact (sysExecute_faulted hres).slotsOk h

/-- A PCB in use is not the one `sys_execute` takes. -/
theorem ne_of_inUse {p q : Fin 6} (hp : k.inUse p = true) (hfree : getFreePcb k = some q) : p ≠ q := by
  rintro rfl
  rw [(getFreePcb_eq_some hfree).1] at hp
  cases hp

theorem sysExecute_pcb (k : Kernel) (command : Option (List UInt8)) (frame : Frame) {p : Fin 6}
    (hp : k.inUse p = true) :
    (sysExecute k command frame).1.allPcbs p = k.allPcbs p := by
  cases hres : (sysExecute k command frame).2 with
  | error => exact (sysExecute_failed hres).pcb p hp
  | launched eip =>
    have hlaunch := sysExecute_launched hres
    exact hlaunch.pcb p (ne_of_inUse hp hlaunch.free)
  | faulted =>
    have hfault := sysExecute_faulted hres
    exact hfault.pcb p (ne_of_inUse hp hfault.free)

/-- The descriptors of a new process. -/
theorem Launched.openFiles {k' : Kernel} {frame : Frame} (h : Launched k frame k') (d : Fin 8) :
    (openFiles k'.fdt d).isSome = true ↔ d.val < 2 := by
  rw [h.fdt]
  exact initFdt_openFiles _ d

/-! #### `sys_halt` -/

private theorem closeAll_slotsOk (h : SlotsOk k) : SlotsOk (closeAll k) := by
  have key : ∀ (l : List Int) (k : Kernel), SlotsOk k → SlotsOk (l.foldl (fun k fd => (sysClose k fd).1) k) := by
    intro l
    induction l with
    | nil => exact fun k h => h
    | cons fd l ih => exact fun k h => ih _ (sysClose_slotsOk h fd)
  exact key _ k h

private theorem released_slotsOk (h : SlotsOk k) : SlotsOk (released k) := by
  have hclose := closeAll_slotsOk h
  have hpcb : ∀ p, ((released k).allPcbs p).fdt = ((closeAll k).allPcbs p).fdt ∧
      ((released k).inUse p = true → (closeAll k).inUse p = true) := by
    intro p
    by_cases hp : p = (closeAll k).pidCounter
    · subst hp; simp [released, Kernel.inUse]
    · simp [released, Kernel.inUse, hp]
  exact
    { fdt := fun p hp => by
        rw [(hpcb p).1]
        exact hclose.fdt p (hp.imp_left (hpcb p).2)
      dirIsOpen := hclose.dirIsOpen
      dirCount := hclose.dirCount
      types := hclose.types }

theorem HaltReturned.slotsOk {k' : Kernel} (h : SlotsOk k) (hr : HaltReturned k k') : SlotsOk k' where
  fdt p hp := by
    have huse : k'.inUse p = k.inUse p := by rw [Kernel.inUse, hr.pcbs, Kernel.inUse]
    rw [huse, hr.pidCounter, hr.prevPid] at hp
    rw [hr.pcbs]
    exact h.fdt p (by tauto)
  dirIsOpen := by rw [hr.fs]; exact h.dirIsOpen
  dirCount := by rw [hr.fs]; exact h.dirCount
  types := by rw [hr.fs]; exact h.types

private theorem sysHalt_slotsOk (h : SlotsOk k) (status : UInt8) (frame : Frame) :
    SlotsOk (sysHalt k status frame).1 := by
  refine sysHalt_keeps (released_slotsOk h) ?_ ?_
  · exact fun _ hk => sysExecute_slotsOk hk _ frame
  · exact fun _ hk => (haltReturn_spec _ status).slotsOk hk

/-- Halting closes the descriptors of the halting process only. -/
theorem sysHalt_pcb (k : Kernel) (status : UInt8) (frame : Frame) {p : Fin 6} (hp : k.inUse p = true)
    (hother : p ≠ k.pidCounter) : (sysHalt k status frame).1.allPcbs p = k.allPcbs p := by
  have hrel := released_spec k
  have hused : (released k).inUse p = true := by rw [hrel.inUse, Function.update_of_ne hother, hp]
  rw [← hrel.pcb p hother]
  have hend := sysHalt_ended k status frame
  generalize (sysHalt k status frame).1 = k', (sysHalt k status frame).2 = res at hend ⊢
  cases hend with
  | other _ hreturn => rw [hreturn.pcbs]
  | failed _ hfail hreturn => rw [hreturn.pcbs, hfail.pcb p hused]
  | relaunched _ hlaunch => exact hlaunch.pcb p (ne_of_inUse hused hlaunch.free)
  | faulted _ hfault => exact hfault.pcb p (ne_of_inUse hused hfault.free)

/-- The shell that replaces a halting process 1 or 2 is a new process. -/
private theorem sysHalt_relaunched {status : UInt8} {frame : Frame} {eip : Int}
    (h : (sysHalt k status frame).2 = .relaunched eip) : Launched (released k) frame (sysHalt k status frame).1 := by
  have hend := sysHalt_ended k status frame
  rw [h] at hend
  cases hend with
  | relaunched _ hlaunch => exact hlaunch

/-! ### The refinement -/

/-- What the calls do to the partial map of the running process, and to the PCBs of the others. -/
structure CallsRefine (k : Kernel) : Prop where
  std : ∀ d : Fin 8, d.val < 2 → openFiles k.fdt d ≠ none
  openFails : ∀ filename, (∃ k', sysOpen k filename = some (k', -1) ∧ k'.allPcbs = k.allPcbs) ↔
    (∀ i, ¬Names k.fs filename i) ∨ Full k.fdt
  openAdds : ∀ filename i, Names k.fs filename i → ¬Full k.fdt →
    ∃ k' d, Opens k filename (k.fs.bootBlockMain.direntries i) k' d
  closeRemoves : ∀ fd, Closable k fd → (sysClose k fd).2 = 0 ∧
    openFiles (sysClose k fd).1.fdt = Function.update (openFiles k.fdt) (fdIndex fd) none ∧
    (∀ c ≠ fdIndex fd, (sysClose k fd).1.fdt c = k.fdt c) ∧ CallsOnly k (sysClose k fd).1
  closeFails : ∀ fd, ¬Closable k fd → sysClose k fd = (k, -1)
  readFails : ∀ fd buf nbytes, ¬Readable k fd → sysRead k fd buf nbytes = some (k, -1, [])
  writeFails : ∀ fd buf nbytes, ¬Writable k fd → sysWrite k fd buf nbytes = some (k, -1)
  readMoves : ∀ fd buf nbytes k' r stored, sysRead k fd buf nbytes = some (k', r, stored) →
    (∃ n, k'.fdt = Function.update k.fdt (fdIndex fd) { k.fdt (fdIndex fd) with fileBytesRead := n }) ∧ CallsOnly k k'
  writeKeeps : ∀ fd buf nbytes k' r, sysWrite k fd buf nbytes = some (k', r) → k'.allPcbs = k.allPcbs
  executeStarts : ∀ command frame eip, (sysExecute k command frame).2 = .launched eip →
    ∀ d, (openFiles (sysExecute k command frame).1.fdt d).isSome = true ↔ d.val < 2
  executeKeeps : ∀ command frame p, k.inUse p = true → (sysExecute k command frame).1.allPcbs p = k.allPcbs p
  haltStarts : ∀ status frame eip, (sysHalt k status frame).2 = .relaunched eip →
    ∀ d, (openFiles (sysHalt k status frame).1.fdt d).isSome = true ↔ d.val < 2
  haltKeeps : ∀ status frame p, k.inUse p = true → p ≠ k.pidCounter →
    (sysHalt k status frame).1.allPcbs p = k.allPcbs p

private theorem SlotsOk.callsRefine (h : SlotsOk k) : CallsRefine k where
  std d hd := by
    rw [Ne, openFiles_eq_none, (h.running.std d hd).1]
    simp
  openFails filename := by
    constructor
    · rintro ⟨k', hopen, -⟩
      by_contra hnot
      push Not at hnot
      obtain ⟨⟨i, hname⟩, hroom⟩ := hnot
      obtain ⟨k'', d, hopens, -⟩ := sysOpen_some h hname hroom
      rw [hopens.result, Option.some.injEq, Prod.mk.injEq] at hopen
      omega
    · intro hfail
      exact ⟨k, sysOpen_none h hfail, rfl⟩
  openAdds filename i hname hroom := by
    obtain ⟨k', d, hopens, -⟩ := sysOpen_some h hname hroom
    exact ⟨k', d, hopens⟩
  closeRemoves fd hc := by
    obtain ⟨hret, hfdt⟩ := sysClose_fdt h.running hc
    refine ⟨hret, ?_, ?_, (sysClose_filesOnly k fd).callsOnly⟩
    · rw [hfdt, openFiles_update]
      rfl
    · intro c hcd
      rw [hfdt, Function.update_of_ne hcd]
  closeFails _ hc := sysClose_fails hc
  readFails _ _ nbytes hr := sysRead_fails (fun hboth => hr hboth.1) nbytes
  writeFails _ _ nbytes hw := sysWrite_fails (fun hboth => hw hboth.1) nbytes
  readMoves _ _ _ _ _ _ hread := by
    obtain ⟨hmove, hcalls, -⟩ := sysRead_position h hread
    exact ⟨hmove, hcalls⟩
  writeKeeps _ _ _ _ _ hwrite := (sysWrite_pcbs hwrite).2
  executeStarts _ _ _ hres := (sysExecute_launched hres).openFiles
  executeKeeps command frame _ hp := sysExecute_pcb k command frame hp
  haltStarts _ _ _ hres := (sysHalt_relaunched hres).openFiles
  haltKeeps status frame _ hp hother := sysHalt_pcb k status frame hp hother

end Calls

/-! ### Runs -/

inductive Call
  | execute (command : Option (List UInt8)) (frame : Frame)
  | halt (status : UInt8) (frame : Frame)
  | open_ (filename : Nat → UInt8)
  | close (fd : Int)
  | read (fd : Int) (buf : Ptr) (nbytes : Int)
  | write (fd : Int) (buf : Ptr) (nbytes : Int)
  | finishHalt (status : UInt8)
  | interrupt

/-- A call that comes to its end; `finishHalt` is the rest of a `sys_halt` whose shell has halted.  Between the calls
the interrupts move the terminals (`keyboardHandler_sameProcesses`, `pitHandler_late`, `pitBoot_sameProcesses`). -/
inductive CallStep : Kernel → Call → Kernel → Prop
  | execute {k : Kernel} {command : Option (List UInt8)} {frame : Frame} :
      CallStep k (.execute command frame) (sysExecute k command frame).1
  | halt {k : Kernel} {status : UInt8} {frame : Frame} : CallStep k (.halt status frame) (sysHalt k status frame).1
  | open_ {k k' : Kernel} {filename : Nat → UInt8} {r : Int} (h : sysOpen k filename = some (k', r)) :
      CallStep k (.open_ filename) k'
  | close {k : Kernel} {fd : Int} : CallStep k (.close fd) (sysClose k fd).1
  | read {k k' : Kernel} {fd nbytes r : Int} {buf : Ptr} {stored : List UInt8}
      (h : sysRead k fd buf nbytes = some (k', r, stored)) : CallStep k (.read fd buf nbytes) k'
  | write {k k' : Kernel} {fd nbytes r : Int} {buf : Ptr} (h : sysWrite k fd buf nbytes = some (k', r)) :
      CallStep k (.write fd buf nbytes) k'
  | finishHalt {k : Kernel} {status : UInt8} : CallStep k (.finishHalt status) (haltReturn k status).1
  | interrupt {k k' : Kernel} (h : SameProcesses k k') : CallStep k .interrupt k'

theorem SameProcesses.slotsOk {k k' : Kernel} (h : SlotsOk k) (hs : SameProcesses k k') : SlotsOk k' where
  fdt p hp := by
    rw [hs.inUse, hs.pidCounter, hs.prevPid] at hp
    rw [hs.fdt]
    exact h.fdt p hp
  dirIsOpen := by rw [hs.fs]; exact h.dirIsOpen
  dirCount := by rw [hs.fs]; exact h.dirCount
  types := by rw [hs.fs]; exact h.types

theorem sysOpen_callsOnly {k k' : Kernel} {filename : Nat → UInt8} {r : Int} (h : SlotsOk k)
    (hopen : sysOpen k filename = some (k', r)) : CallsOnly k k' := by
  obtain ⟨-, rfl⟩ | ⟨i, d, -, -, hopens, -⟩ := h.sysOpen_cases hopen
  · exact (FilesOnly.refl k').callsOnly
  · exact hopens.only

private theorem sysOpen_slotsOk {k k' : Kernel} {filename : Nat → UInt8} {r : Int} (h : SlotsOk k)
    (hopen : sysOpen k filename = some (k', r)) : SlotsOk k' := by
  obtain ⟨-, rfl⟩ | ⟨i, d, -, -, -, hk'⟩ := h.sysOpen_cases hopen
  · exact h
  · exact hk'

theorem callStep_slotsOk {k k' : Kernel} {c : Call} (h : SlotsOk k) (hstep : CallStep k c k') : SlotsOk k' := by
  cases hstep with
  | execute => exact sysExecute_slotsOk h _ _
  | halt => exact sysHalt_slotsOk h _ _
  | open_ hopen => exact sysOpen_slotsOk h hopen
  | close => exact sysClose_slotsOk h _
  | read hread => exact (sysRead_position h hread).2.2
  | write hwrite =>
    obtain ⟨hcalls, hpcbs⟩ := sysWrite_pcbs hwrite
    refine h.call hcalls ?_
    rw [Kernel.fdt, hpcbs, hcalls.pidCounter]
    exact h.running
  | finishHalt => exact (haltReturn_spec k _).slotsOk h
  | interrupt hsame => exact hsame.slotsOk h

/-- The file system after the `dir_open` of `entry`. -/
theorem entry_fs (b : Boot) : (entry b).fs = (dirOpen (zeroKernel b).fs (cString (asBytes "."))).1 := by
  simp only [entry, clear, startTerminals, bootKernel]
  rw [puts_eq]

theorem entry_dir (b : Boot) : (entry b).fs.dirIsOpen = true ∧ (entry b).fs.bootBlockMain.dirCount < 4294967296 := by
  rw [entry_fs]
  refine ⟨rfl, ?_⟩
  exact word_lt (zeroKernel b).fs 0

/-- No tick has come yet, and no process has been started. -/
private theorem entry_start (b : Boot) :
    (entry b).pitCount = 0 ∧ (∀ p, (entry b).inUse p = false) ∧ (entry b).pidCounter = 0 := by
  simp only [entry, clear, startTerminals, bootKernel, Kernel.inUse]
  rw [puts_eq]
  simp [zeroKernel]

/-- The first shell is launched with PCB 0, the only one in use. -/
theorem firstShell_fdt {b : Boot} {frame execFrame : Frame} {eip : Int}
    (hlaunch : (pitHandler (entry b) frame execFrame).2 = .launched eip) :
    let k := (pitHandler (entry b) frame execFrame).1
    k.fs = (entry b).fs ∧
      ∀ p, (k.inUse p = true ∨ p = k.pidCounter ∨ p = k.prevPid) → ∃ fdt, (k.allPcbs p).fdt = initFdt fdt := by
  obtain ⟨hzero, hunused, hpid⟩ := entry_start b
  have hcount : (entry b).pitCount < 3 := by omega
  have hsame := pitBoot_sameProcesses (entry b) frame hcount
  have hend := pitHandler_ended (entry b) frame execFrame
  rw [hlaunch] at hend
  generalize (pitHandler (entry b) frame execFrame).1 = k' at hend ⊢
  cases hend with
  | launched h hres =>
    have hnew := sysExecute_launched hres
    generalize (sysExecute (pitBoot (entry b) frame h) (some (asBytes "shell")) execFrame).1 = k at hnew ⊢
    have hnone : ∀ p ≠ k.pidCounter, k.inUse p = false := by
      intro p hp
      rw [Kernel.inUse, hnew.pcb p hp, ← Kernel.inUse, hsame.inUse]
      exact hunused p
    have hzero : k.pidCounter = 0 := by
      have hfree := getFreePcb_first (k := pitBoot (entry b) frame h) (n := 0) (by omega) fun p => by
        rw [hsame.inUse, hunused]
        simp
      exact Option.some.inj (hnew.free.symm.trans hfree)
    refine ⟨hnew.fs.trans hsame.fs, fun p hp => ?_⟩
    have hrun : p = k.pidCounter := by
      by_contra hne
      rw [hnone p hne, hnew.prevPid, hsame.pidCounter, hpid, ← hzero] at hp
      simp [hne] at hp
    rw [hrun]
    exact ⟨_, hnew.fdt⟩

theorem firstShell_slotsOk {b : Boot} {frame execFrame : Frame} {eip : Int}
    (hlaunch : (pitHandler (entry b) frame execFrame).2 = .launched eip)
    (htypes : ∀ i < (entry b).fs.bootBlockMain.dirCount, ((entry b).fs.bootBlockMain.direntries i).filetype = 0 ∨
      ((entry b).fs.bootBlockMain.direntries i).filetype = 1 ∨ ((entry b).fs.bootBlockMain.direntries i).filetype = 2) :
    SlotsOk (pitHandler (entry b) frame execFrame).1 := by
  obtain ⟨hfs, hfdt⟩ := firstShell_fdt hlaunch
  obtain ⟨hopen, hdir⟩ := entry_dir b
  refine ⟨?_, by rw [hfs]; exact hopen, by rw [hfs]; exact hdir, by rw [hfs]; exact htypes⟩
  intro p hp
  obtain ⟨fdt, hnew⟩ := hfdt p hp
  rw [hnew]
  exact initFdt_ok fdt

/-- The descriptor tables.  After any calls from the launch of the first shell on, the table of the running process is
right, and every call does to it what it does to the partial map. -/
theorem descriptor_table_refinement {b : Boot} {frame execFrame : Frame} {eip : Int} {calls : List Call} {k : Kernel}
    (hlaunch : (pitHandler (entry b) frame execFrame).2 = .launched eip)
    (htypes : ∀ i < (entry b).fs.bootBlockMain.dirCount, ((entry b).fs.bootBlockMain.direntries i).filetype = 0 ∨
      ((entry b).fs.bootBlockMain.direntries i).filetype = 1 ∨ ((entry b).fs.bootBlockMain.direntries i).filetype = 2)
    (hrun : Run CallStep (pitHandler (entry b) frame execFrame).1 calls k) : FdtOk k.fdt ∧ CallsRefine k := by
  have hk : SlotsOk k :=
    Run.invariant (P := SlotsOk) (fun _ _ _ h hstep => callStep_slotsOk h hstep) hrun
      (firstShell_slotsOk hlaunch htypes)
  exact ⟨hk.running, hk.callsRefine⟩

/-- The first shell opens the file of its own program. -/
theorem firstShell_opens_itself :
    ∃ k, sysOpen firstShell (cString (asBytes "shell")) = some (k, 2) ∧ FdtOk k.fdt ∧ CallsRefine k := by
  have hlaunch : (pitHandler (entry shellBoot) frame₀ frame₀).2 = .launched 0x8048000 := by decide +kernel
  have hopen : (sysOpen firstShell (cString (asBytes "shell"))).map Prod.snd = some 2 := by decide +kernel
  obtain ⟨⟨k, r⟩, hk, hr⟩ := Option.map_eq_some_iff.1 hopen
  dsimp only at hr
  subst hr
  refine ⟨k, hk, ?_⟩
  exact descriptor_table_refinement hlaunch (by decide +kernel) (Run.single (.open_ hk))

end BigChungOS
