import BigChungOS.Paging

/-!
# The file system (FileSystem.c)

The image is read through `boot_block_ptr`, a pointer to 32-bit words, so block `b` starts at word `1024*b`: block 0
is the boot block, the inodes follow, then the data blocks.  A function that stores into a caller's buffer returns
the bytes it stores, from the start of the buffer on.

An inode or block number that is out of range leads behind the image, where only what `kernelMapped` says is mapped.
`exec_check`, which gets the inode number of any directory entry, faults at the other addresses (`FileSystem.load`).
The other functions are modelled for images whose files have their blocks in range: where `read_data`, `file_read` or
`exec_file_load` would fault for a wild number, `FileSystem.word` and `FileSystem.byte` read some byte.
-/

namespace BigChungOS

open Memory

/-! ### The string functions of lib.c -/

/-- The loop of `strncmp` from index `i` on, with `n` characters left. -/
def strncmpFrom (s1 s2 : Nat → UInt8) : Nat → Nat → Int
  | 0, _ => 0
  | n + 1, i =>
    if s1 i ≠ s2 i ∨ s1 i = 0 then (s1 i).toInt8.toInt - (s2 i).toInt8.toInt
    else strncmpFrom s1 s2 n (i + 1)

/-- `strncmp`. -/
def strncmp (s1 s2 : Nat → UInt8) (n : Nat) : Int := strncmpFrom s1 s2 n 0

/-- `strncpy`: copy up to the first NUL, then pad with NULs. -/
def strncpy (dest src : Nat → UInt8) (n : Nat) : Nat → UInt8 :=
  fun i => if i < n then (if (List.range (i + 1)).all (src · ≠ 0) then src i else 0) else dest i

/-! ### Reading the image -/

namespace FileSystem

/-- The byte `off` bytes after `boot_block_ptr`; addresses wrap around at 4GB. -/
def byte (fs : FileSystem) (off : Nat) : UInt8 := fs.image (off % 4294967296)

/-- The little-endian word `*(boot_block_ptr + i)`. -/
def word (fs : FileSystem) (i : Nat) : Nat :=
  (fs.byte (4 * i)).toNat + 0x100 * (fs.byte (4 * i + 1)).toNat +
    0x10000 * (fs.byte (4 * i + 2)).toNat + 0x1000000 * (fs.byte (4 * i + 3)).toNat

/-- The dentry that `dir_open` copies from slot `i` of the boot block. -/
def dentryAt (fs : FileSystem) (i : Nat) : DentryT :=
  let tempPtr := 16 * (i + 1)
  { filename := fun j => fs.byte (4 * tempPtr + j)
    filetype := toInt32 (fs.word (tempPtr + 8))
    inodeNum := fs.word (tempPtr + 9) }

end FileSystem

/-- `dir_open`. -/
def dirOpen (fs : FileSystem) (filename : Nat → UInt8) : FileSystem × Int :=
  if filename 0 ≠ 0x2E then (fs, -1)
  else if fs.dirIsOpen then ({ fs with currDir := 0 }, 0)
  else
    let count := fs.word 0
    ({ fs with
        currDir := 0
        dirIsOpen := true
        bootBlockMain :=
          { dirCount := count
            inodeCount := fs.word 1
            dataCount := fs.word 2
            direntries := fun i =>
              if (i : Int) < toInt32 count then fs.dentryAt i else fs.bootBlockMain.direntries i } }, 0)

/-- `dir_close`. -/
def dirClose (fs : FileSystem) : FileSystem × Int := ({ fs with currDir := 0 }, 0)

/-- `dir_write` and `file_write`. -/
def dirWrite : Int := -1
def fileWrite : Int := -1

/-- `read_dentry_by_index`: the dentry passed by reference, and the return value. -/
def readDentryByIndex (fs : FileSystem) (index : Nat) (dentry : DentryT) : DentryT × Int :=
  if index < fs.bootBlockMain.dirCount then
    let e := fs.bootBlockMain.direntries index
    ({ filename := strncpy dentry.filename e.filename 32, filetype := e.filetype, inodeNum := e.inodeNum },
      toInt32 index)
  else (dentry, -1)

/-- The first index whose name compares equal with `fname`, the loop of `read_dentry_by_name`. -/
def findDentry (fs : FileSystem) (fname : Nat → UInt8) : Option Nat :=
  (List.range fs.bootBlockMain.dirCount).find?
    fun i => strncmp (fs.bootBlockMain.direntries i).filename fname 32 = 0

/-- `read_dentry_by_name`. -/
def readDentryByName (fs : FileSystem) (fname : Nat → UInt8) (dentry : DentryT) : DentryT × Int :=
  match findDentry fs fname with
  | some i => readDentryByIndex fs i dentry
  | none => (dentry, -1)

/-- A local `dentry_t` before anything is stored in it. -/
def emptyDentry : DentryT := { filename := fun _ => 0, filetype := 0, inodeNum := 0 }

/-- `while (i > 0)`: the bytes the inner loop of `read_data` copies from `charPtr` on. -/
def copyBytes (fs : FileSystem) : Nat → Nat → List UInt8
  | _, 0 => []
  | charPtr, i + 1 => fs.byte charPtr :: copyBytes fs (charPtr + 1) i

/-- The number of bytes `read_data` takes from block `loop`: up to the end of the block or of the file, and no
more than the caller still wants.  The comparison with `length - length_read` is unsigned. -/
def blockBytes (inodeLength : Int) (loop offset length lengthRead : Nat) : Int :=
  let blockEnd := toInt32 (4096 * ((loop : Int) + 1))
  let i := if inodeLength > blockEnd then toInt32 (blockEnd - offset) else toInt32 (inodeLength - offset)
  if toUInt32 i > toUInt32 ((length : Int) - lengthRead) then toInt32 ((length : Int) - lengthRead) else i

/-- The outer loop of `read_data`, for `fuel` blocks from `loop` on; `buf` is what has been stored so far. -/
def readBlocks (fs : FileSystem) (tempInode length : Nat) : Nat → Nat → Nat → List UInt8 → List UInt8
  | 0, _, _, buf => buf
  | fuel + 1, loop, offset, buf =>
    let tempPtr := 1024 * (1 + fs.bootBlockMain.inodeCount + fs.word (tempInode + 1 + loop))
    let charPtr := 4 * tempPtr + offset % 4096
    let i := (blockBytes (toInt32 (fs.word tempInode)) loop offset length buf.length).toNat
    let buf := buf ++ copyBytes fs charPtr i
    if buf.length = length then buf
    else readBlocks fs tempInode length fuel (loop + 1) ((offset + i) % 4294967296) buf

/-- `read_data`: the bytes stored in `buf`; the return value is their number. -/
def readData (fs : FileSystem) (inode offset length : Nat) : List UInt8 :=
  let tempInode := 1024 * (1 + inode)
  let minBlock := offset / 4096
  let maxBlock := (toInt32 (fs.word tempInode)).tdiv 4096 + 1
  readBlocks fs tempInode length (maxBlock - minBlock).toNat minBlock offset []

/-- `file_read`, for the inode and the position of the descriptor. -/
def fileRead (fs : FileSystem) (inode fileBytesRead : Nat) (nbytes : Int) : Int × List UInt8 :=
  if nbytes < 0 then (-1, [])
  else if fileBytesRead = fs.word (1024 * (1 + inode)) then (0, [])
  else
    let stored := readData fs inode fileBytesRead nbytes.toNat
    (stored.length, stored)

/-- `dir_read`; the length the caller passes is not looked at. -/
def dirRead (fs : FileSystem) : FileSystem × Int × List UInt8 :=
  if fs.dirIsOpen = false then (fs, -1, [])
  else if (fs.currDir : Int) < toInt32 fs.bootBlockMain.dirCount then
    let temp := (readDentryByIndex fs fs.currDir emptyDentry).1
    let stored := ((List.range 32).map temp.filename).takeWhile (· ≠ 0)
    ({ fs with currDir := fs.currDir + 1 }, stored.length, stored)
  else ({ fs with currDir := 0 }, 0, [])

/-- The word `*(boot_block_ptr + i)`, or `none` for a page fault where one of its bytes is not mapped. -/
def FileSystem.load (fs : FileSystem) (i : Nat) : Option Nat :=
  if (List.range 4).all fun j => kernelMapped ((fs.bootBlockPtr + 4 * i + j) % 4294967296) then some (fs.word i)
  else none

/-- `exec_check`: the entry point, or `-1` for a file that does not start with `ELFMAGIC`.  It is given any inode
number; `none` is the page fault of a word that is not mapped. -/
def execCheck (fs : FileSystem) (inode : Nat) : Option Int :=
  match fs.load (1024 * (1 + inode) + 1) with
  | none => none
  | some block =>
    let tempPtr := 1024 * (1 + fs.bootBlockMain.inodeCount + block)
    match fs.load tempPtr with
    | none => none
    | some magic =>
      if magic ≠ 0x464C457F then some (-1) else (fs.load (tempPtr + 6)).map fun entry : Nat => toInt32 entry

/-- `exec_file_load`: the bytes stored at the load address. -/
def execFileLoad (fs : FileSystem) (inode offset length : Nat) : List UInt8 :=
  if offset = fs.word (1024 * (1 + inode)) then [] else readData fs inode offset length

/-! ### Lookups -/

theorem word_lt (fs : FileSystem) (i : Nat) : fs.word i < 4294967296 := by
  have h0 := (fs.byte (4 * i)).toNat_lt
  have h1 := (fs.byte (4 * i + 1)).toNat_lt
  have h2 := (fs.byte (4 * i + 2)).toNat_lt
  have h3 := (fs.byte (4 * i + 3)).toNat_lt
  unfold FileSystem.word
  omega

private theorem toInt8_inj {a b : UInt8} (h : a.toInt8.toInt = b.toInt8.toInt) : a = b := by
  have h' : a.toInt8 = b.toInt8 := Int8.toInt_inj.1 h
  have ha : a.toInt8.toUInt8 = b.toInt8.toUInt8 := by rw [h']
  simpa using ha

/-- Two names compare equal when they agree up to the first NUL, or on all `n` characters. -/
def SameName (s1 s2 : Nat → UInt8) (n : Nat) : Prop :=
  ∃ m ≤ n, (∀ i < m, s1 i = s2 i ∧ s1 i ≠ 0) ∧ (m < n → s1 m = 0 ∧ s2 m = 0)

private theorem strncmpFrom_eq_zero_iff (s1 s2 : Nat → UInt8) (n i : Nat) :
    strncmpFrom s1 s2 n i = 0 ↔ SameName (fun j => s1 (i + j)) (fun j => s2 (i + j)) n := by
  induction n generalizing i with
  | zero =>
    have htriv : SameName (fun j => s1 (i + j)) (fun j => s2 (i + j)) 0 :=
      ⟨0, le_refl 0, fun _ h => absurd h (by omega), fun h => absurd h (by omega)⟩
    simp [strncmpFrom, htriv]
  | succ n ih =>
    unfold strncmpFrom
    by_cases hstop : s1 i ≠ s2 i ∨ s1 i = 0
    · rw [if_pos hstop]
      constructor
      · intro h
        have heq : s1 i = s2 i := toInt8_inj (by omega)
        have hnul : s1 i = 0 := hstop.resolve_left (fun hne => hne heq)
        have hnul2 : s2 i = 0 := heq ▸ hnul
        exact ⟨0, by omega, fun j hj => absurd hj (by omega), fun _ => ⟨hnul, hnul2⟩⟩
      · rintro ⟨m, hm, hpre, hend⟩
        have heq : s1 i = s2 i := by
          rcases Nat.eq_zero_or_pos m with rfl | hpos
          · have := hend (by omega)
            simpa using this.1.trans this.2.symm
          · exact (hpre 0 hpos).1
        rw [heq]; omega
    · rw [if_neg hstop, ih]
      simp only [not_or, not_not] at hstop
      constructor
      · rintro ⟨m, hm, hpre, hend⟩
        refine ⟨m + 1, by omega, ?_, ?_⟩
        · intro j hj
          rcases Nat.eq_zero_or_pos j with rfl | hpos
          · exact ⟨hstop.1, hstop.2⟩
          · have := hpre (j - 1) (by omega)
            simpa only [show i + 1 + (j - 1) = i + j by omega] using this
        · intro hlt
          have := hend (by omega)
          simpa only [show i + 1 + m = i + (m + 1) by omega] using this
      · rintro ⟨m, hm, hpre, hend⟩
        rcases Nat.eq_zero_or_pos m with rfl | hpos
        · exact absurd (hend (by omega)).1 hstop.2
        · refine ⟨m - 1, by omega, ?_, ?_⟩
          · intro j hj
            have := hpre (j + 1) (by omega)
            simpa only [show i + 1 + j = i + (j + 1) by omega] using this
          · intro hlt
            have := hend (by omega)
            simpa only [show i + 1 + (m - 1) = i + m by omega] using this

private theorem strncmp_eq_zero_iff (s1 s2 : Nat → UInt8) (n : Nat) : strncmp s1 s2 n = 0 ↔ SameName s1 s2 n := by
  have := strncmpFrom_eq_zero_iff s1 s2 n 0
  simpa [strncmp] using this

/-- Entry `i` is the first one with the name `fname`. -/
def Names (fs : FileSystem) (fname : Nat → UInt8) (i : Nat) : Prop :=
  i < fs.bootBlockMain.dirCount ∧ SameName (fs.bootBlockMain.direntries i).filename fname 32 ∧
    ∀ j < i, ¬SameName (fs.bootBlockMain.direntries j).filename fname 32

theorem findDentry_eq_some_iff {fs : FileSystem} {fname : Nat → UInt8} {i : Nat} :
    findDentry fs fname = some i ↔ Names fs fname i := by
  unfold findDentry Names
  rw [List.find?_range_eq_some]
  simp only [decide_eq_true_eq, List.mem_range, Bool.not_eq_true', decide_eq_false_iff_not, strncmp_eq_zero_iff]
  tauto

theorem copyBytes_length (fs : FileSystem) (p n : Nat) : (copyBytes fs p n).length = n := by
  induction n generalizing p with
  | zero => rfl
  | succ n ih => simp [copyBytes, ih]

theorem copyBytes_getElem? (fs : FileSystem) (p n : Nat) {j : Nat} (hj : j < n) :
    (copyBytes fs p n)[j]? = some (fs.byte (p + j)) := by
  induction n generalizing p j with
  | zero => omega
  | succ n ih =>
    cases j with
    | zero => simp [copyBytes]
    | succ j =>
      rw [copyBytes, List.getElem?_cons_succ, ih (p + 1) (by omega)]
      congr 2
      omega

end BigChungOS
