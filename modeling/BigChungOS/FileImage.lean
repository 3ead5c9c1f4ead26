import BigChungOS.FileSystem
import Mathlib.Data.List.GetD

/-!
# The files of an image

The format of an image, stated apart from the code that reads it: block 0 counts and names the files (`Layout`,
`EntryAt`), and the inode of a regular file has its length and the numbers of the data blocks that hold its contents,
in any order (`InodeAt`).

Over such an image `file_read` returns the next bytes of the contents, wherever the read starts and ends in the blocks
(`fileRead_spec`), and a name leads to the one file that has it (`Layout.names_eq`).
-/

namespace BigChungOS

open Memory

/-! ### The format -/

/-- The little-endian word at address `a`. -/
def wordAt (image : Nat → UInt8) (a : Nat) : Nat :=
  (image a).toNat + 0x100 * (image (a + 1)).toNat + 0x10000 * (image (a + 2)).toNat + 0x1000000 * (image (a + 3)).toNat

/-- A file: types 0, 1 and 2 are the RTC, the directory and regular files, and only the last have contents of their
own. -/
structure File where
  name : List UInt8
  filetype : Nat
  contents : List UInt8
  nameLength : 1 ≤ name.length ∧ name.length ≤ 32
  nameBytes : (0 : UInt8) ∉ name
  filetypeLe : filetype ≤ 2
  size : contents.length ≤ 1023 * 4096

/-- Inode `n` of an image with `inodes` inodes and `blocks` data blocks has the contents. -/
structure InodeAt (image : Nat → UInt8) (inodes blocks n : Nat) (contents : List UInt8) : Prop where
  inRange : n < inodes
  length : wordAt image (4096 * (1 + n)) = contents.length
  block : ∀ b, 4096 * b < contents.length → wordAt image (4096 * (1 + n) + 4 * (1 + b)) < blocks
  data : ∀ j, j < contents.length →
    contents[j]? = some (image (4096 * (1 + inodes + wordAt image (4096 * (1 + n) + 4 * (1 + j / 4096))) + j % 4096))

/-- The directory entry at address `a` is that of `f`. -/
structure EntryAt (image : Nat → UInt8) (inodes blocks a : Nat) (f : File) : Prop where
  name : SameName (fun j => image (a + j)) (cString f.name) 32
  filetype : wordAt image (a + 32) = f.filetype
  inode : f.filetype = 2 → InodeAt image inodes blocks (wordAt image (a + 36)) f.contents

/-- The image has the files, and fits in the address space. -/
structure Layout (image : Nat → UInt8) (files : List File) (inodes blocks : Nat) : Prop where
  count : wordAt image 0 = files.length
  inodeCount : wordAt image 4 = inodes
  dataCount : wordAt image 8 = blocks
  atMost : files.length ≤ 63
  distinct : (files.map File.name).Nodup
  entry : ∀ i f, files[i]? = some f → EntryAt image inodes blocks (64 * (i + 1)) f
  fits : 4096 * (1 + inodes + blocks) ≤ 4294967296

/-! ### Reading the contents -/

/-- The file system finds the contents behind the inode. -/
structure Holds (fs : FileSystem) (inode : Nat) (contents : List UInt8) : Prop where
  length : fs.word (1024 * (1 + inode)) = contents.length
  size : contents.length ≤ 1023 * 4096
  data : ∀ j, j < contents.length → contents[j]? = some (fs.byte
    (4 * (1024 * (1 + fs.bootBlockMain.inodeCount + fs.word (1024 * (1 + inode) + 1 + j / 4096))) + j % 4096))

/-- The position in the directory has no part in it. -/
theorem Holds.currDir {fs : FileSystem} {inode : Nat} {contents : List UInt8} (h : Holds fs inode contents) (n : Nat) :
    Holds { fs with currDir := n } inode contents where
  length := h.length
  size := h.size
  data := h.data

section Read

variable {fs : FileSystem} {inode : Nat} {contents : List UInt8}

/-- The bytes of one block. -/
private theorem copyBytes_block (h : Holds fs inode contents) {loop offset i : Nat} (hlo : 4096 * loop ≤ offset)
    (hblock : offset + i ≤ 4096 * (loop + 1)) (hi : offset + i ≤ contents.length) :
    copyBytes fs (4 * (1024 * (1 + fs.bootBlockMain.inodeCount + fs.word (1024 * (1 + inode) + 1 + loop))) +
      offset % 4096) i = (contents.drop offset).take i := by
  apply List.ext_getElem?
  intro j
  by_cases hj : j < i
  · have hdiv : (offset + j) / 4096 = loop := by omega
    have hmod : (offset + j) % 4096 = offset % 4096 + j := by omega
    have hbyte := h.data (offset + j) (by omega)
    rw [hdiv, hmod] at hbyte
    rw [copyBytes_getElem? _ _ _ hj, List.getElem?_take_of_lt hj, List.getElem?_drop, hbyte, Nat.add_assoc]
  · rw [List.getElem?_eq_none (by rw [copyBytes_length]; omega), List.getElem?_eq_none]
    rw [List.length_take]
    omega

/-- Inside a file, `read_data` takes from a block what the block, the file and the caller leave it. -/
theorem blockBytes_eq {size loop offset length lengthRead : Nat} (hsize : size ≤ 1023 * 4096)
    (hlo : 4096 * loop ≤ offset) (hhi : offset < 4096 * (loop + 1)) (hoffset : offset ≤ size)
    (hread : lengthRead ≤ length) (hlength : length < 2147483648) :
    (blockBytes size loop offset length lengthRead).toNat =
      min (min (4096 * (loop + 1)) size - offset) (length - lengthRead) := by
  have hend : toInt32 (4096 * ((loop : Int) + 1)) = 4096 * (loop + 1) := toInt32_of_mem (by omega) (by omega)
  have hblock : toInt32 (4096 * ((loop : Int) + 1) - offset) = 4096 * (loop + 1) - offset :=
    toInt32_of_mem (by omega) (by omega)
  have hfile : toInt32 ((size : Int) - offset) = size - offset := toInt32_of_mem (by omega) (by omega)
  have hwant : toInt32 ((length : Int) - lengthRead) = length - lengthRead := toInt32_of_mem (by omega) (by omega)
  unfold blockBytes
  dsimp only
  rw [hend, hblock, hfile, hwant]
  unfold toUInt32
  split <;> split <;> omega

private theorem Holds.toInt32_length (h : Holds fs inode contents) :
    toInt32 (fs.word (1024 * (1 + inode)) : Nat) = (contents.length : Nat) := by
  have hsize := h.size
  rw [h.length]
  exact toInt32_of_mem (by omega) (by omega)

/-- The outer loop.  Its offset is inside block `loop`, or it has come to the end of the file and is over. -/
private theorem readBlocks_spec (h : Holds fs inode contents) {length fuel loop offset : Nat} {buf : List UInt8}
    (hlength : length < 2147483648) (hbuf : buf.length ≤ length) (hoffset : offset ≤ contents.length)
    (hloop : (offset = contents.length ∧ fuel = 0) ∨
      (4096 * loop ≤ offset ∧ offset < 4096 * (loop + 1) ∧ loop + fuel = contents.length / 4096 + 1)) :
    readBlocks fs (1024 * (1 + inode)) length fuel loop offset buf =
      buf ++ (contents.drop offset).take (length - buf.length) := by
  have hsize := h.size
  induction fuel generalizing loop offset buf with
  | zero =>
    have hend : offset = contents.length := by omega
    simp [readBlocks, hend]
  | succ fuel ih =>
    obtain ⟨hlo, hhi, hfuel⟩ : 4096 * loop ≤ offset ∧ offset < 4096 * (loop + 1) ∧
        loop + (fuel + 1) = contents.length / 4096 + 1 := by omega
    have hi := blockBytes_eq hsize hlo hhi hoffset hbuf hlength
    unfold readBlocks
    dsimp only
    rw [h.toInt32_length]
    generalize (blockBytes contents.length loop offset length buf.length).toNat = i at hi ⊢
    rw [copyBytes_block h hlo (by omega) (by omega)]
    have hchunk : ((contents.drop offset).take i).length = i := by
      rw [List.length_take, List.length_drop]
      omega
    split
    · next hfull =>
      -- the caller has all the bytes it wants
      rw [List.length_append, hchunk] at hfull
      have hrest : length - buf.length = i := by omega
      rw [hrest]
    · next hmore =>
      rw [List.length_append, hchunk] at hmore
      have hnext : (offset + i) % 4294967296 = offset + i := Nat.mod_eq_of_lt (by omega)
      have hgot : (buf ++ (contents.drop offset).take i).length ≤ length := by
        rw [List.length_append, hchunk]
        omega
      have hsplit : i + (length - (buf.length + i)) = length - buf.length := by omega
      rw [hnext, ih hgot (by omega) (by omega), List.length_append, hchunk, List.append_assoc, ← hsplit, List.take_add,
        List.drop_drop]

theorem readData_spec (h : Holds fs inode contents) {offset length : Nat} (hoffset : offset ≤ contents.length)
    (hlength : length < 2147483648) : readData fs inode offset length = (contents.drop offset).take length := by
  have hsize := h.size
  have hdiv : (contents.length : Int).tdiv 4096 = (contents.length / 4096 : Nat) := rfl
  unfold readData
  dsimp only
  rw [h.toInt32_length, hdiv]
  rw [readBlocks_spec h hlength (Nat.zero_le _) hoffset (.inr ⟨by omega, by omega, by omega⟩)]
  simp

/-- `file_read` returns the next bytes of the contents and their number. -/
theorem fileRead_spec (h : Holds fs inode contents) {position : Nat} (hposition : position ≤ contents.length)
    {nbytes : Int} (hn : 0 ≤ nbytes) (hmax : nbytes < 2147483648) :
    fileRead fs inode position nbytes =
      ((((contents.drop position).take nbytes.toNat).length : Int), (contents.drop position).take nbytes.toNat) := by
  have hneg : ¬nbytes < 0 := by omega
  unfold fileRead
  rw [if_neg hneg, h.length]
  dsimp only
  split
  · next hend => simp [hend]
  · rw [readData_spec h hposition (by omega)]

end Read

/-! ### Names -/

theorem SameName.symm {s t : Nat → UInt8} {n : Nat} (h : SameName s t n) : SameName t s n := by
  obtain ⟨m, hm, hpre, hend⟩ := h
  refine ⟨m, hm, ?_, fun hlt => (hend hlt).symm⟩
  intro i hi
  obtain ⟨heq, hne⟩ := hpre i hi
  exact ⟨heq.symm, heq ▸ hne⟩

theorem SameName.trans {s t u : Nat → UInt8} {n : Nat} (h : SameName s t n) (h' : SameName t u n) : SameName s u n := by
  obtain ⟨m, hm, hpre, hend⟩ := h
  obtain ⟨m', hm', hpre', hend'⟩ := h'
  -- the shorter of two different lengths would end at a NUL inside the other name
  have hlen : m = m' := by
    rcases lt_trichotomy m m' with hlt | heq | hgt
    · exact absurd (hend (by omega)).2 (hpre' m hlt).2
    · exact heq
    · obtain ⟨heq, hne⟩ := hpre m' hgt
      exact absurd (heq.trans (hend' (by omega)).1) hne
  subst hlen
  refine ⟨m, hm, ?_, fun hlt => ⟨(hend hlt).1, (hend' hlt).2⟩⟩
  intro i hi
  exact ⟨(hpre i hi).1.trans (hpre' i hi).1, (hpre i hi).2⟩

theorem cString_ne_zero {a : List UInt8} (ha : (0 : UInt8) ∉ a) {i : Nat} : cString a i ≠ 0 ↔ i < a.length := by
  unfold cString
  constructor
  · intro hne
    by_contra hlt
    exact hne (List.getD_eq_default _ _ (by omega))
  · intro hlt hzero
    rw [List.getD_eq_getElem _ _ hlt] at hzero
    exact ha (hzero ▸ List.getElem_mem hlt)

/-- A name that compares equal with `a` spells `a`, and then ends if it has room to. -/
theorem SameName.spells {s : Nat → UInt8} {a : List UInt8} (ha : (0 : UInt8) ∉ a) (hlen : a.length ≤ 32)
    (h : SameName s (cString a) 32) :
    (∀ i < a.length, s i = cString a i ∧ s i ≠ 0) ∧ (a.length < 32 → s a.length = 0) := by
  obtain ⟨m, hm, hpre, hend⟩ := h
  have hlength : a.length = m := by
    have hge : m ≤ a.length := by
      by_contra hlt
      obtain ⟨heq, hne⟩ := hpre a.length (by omega)
      exact absurd ((cString_ne_zero ha).1 (heq ▸ hne)) (lt_irrefl _)
    by_contra hne
    exact (cString_ne_zero ha).2 (by omega) (hend (by omega)).2
  subst hlength
  exact ⟨hpre, fun hlt => (hend hlt).1⟩

/-- Names of at most 32 characters are equal when they compare equal. -/
theorem SameName.eq {a b : List UInt8} (ha : (0 : UInt8) ∉ a) (hb : (0 : UInt8) ∉ b) (hlen : a.length ≤ 32)
    (hlen' : b.length ≤ 32) (h : SameName (cString a) (cString b) 32) : a = b := by
  obtain ⟨hsame, -⟩ := h.spells hb hlen'
  obtain ⟨hsame', -⟩ := h.symm.spells ha hlen
  have hlength : a.length = b.length := by
    rcases lt_trichotomy a.length b.length with hlt | heq | hgt
    · exact absurd ((cString_ne_zero ha).1 (hsame a.length hlt).2) (lt_irrefl _)
    · exact heq
    · exact absurd ((cString_ne_zero hb).1 (hsame' b.length hgt).2) (lt_irrefl _)
  apply List.ext_getElem hlength
  intro i hi hi'
  have hbyte := (hsame i hi').1
  unfold cString at hbyte
  rwa [List.getD_eq_getElem _ _ hi, List.getD_eq_getElem _ _ hi'] at hbyte

/-! ### The directory of an image -/

/-- The boot block is the one `dir_open` reads from the image. -/
structure Mounted (fs : FileSystem) : Prop where
  dirCount : fs.bootBlockMain.dirCount = fs.word 0
  inodeCount : fs.bootBlockMain.inodeCount = fs.word 1
  entries : ∀ i : Nat, (i : Int) < toInt32 (fs.word 0) → fs.bootBlockMain.direntries i = fs.dentryAt i

private theorem word_congr {fs fs' : FileSystem} (h : fs'.image = fs.image) (i : Nat) : fs'.word i = fs.word i := by
  simp only [FileSystem.word, FileSystem.byte, h]

private theorem dentryAt_congr {fs fs' : FileSystem} (h : fs'.image = fs.image) (i : Nat) :
    fs'.dentryAt i = fs.dentryAt i := by
  simp only [FileSystem.dentryAt, FileSystem.byte, word_congr h, h]

theorem dirOpen_mounted {fs : FileSystem} (hclosed : fs.dirIsOpen = false) {filename : Nat → UInt8}
    (hname : filename 0 = 0x2E) : Mounted (dirOpen fs filename).1 := by
  have hopen : (dirOpen fs filename).1.image = fs.image ∧ (dirOpen fs filename).1.bootBlockMain =
      { dirCount := fs.word 0, inodeCount := fs.word 1, dataCount := fs.word 2
        direntries := fun i =>
          if (i : Int) < toInt32 (fs.word 0) then fs.dentryAt i else fs.bootBlockMain.direntries i } := by
    unfold dirOpen
    rw [if_neg (by simpa using hname), if_neg (by simp [hclosed])]
    exact ⟨rfl, rfl⟩
  obtain ⟨himage, hblock⟩ := hopen
  generalize (dirOpen fs filename).1 = fs' at himage hblock ⊢
  refine ⟨by rw [hblock, word_congr himage], by rw [hblock, word_congr himage], ?_⟩
  intro i hi
  rw [word_congr himage] at hi
  rw [hblock, dentryAt_congr himage]
  dsimp only
  rw [if_pos hi]

theorem Mounted.currDir {fs : FileSystem} (h : Mounted fs) (n : Nat) : Mounted { fs with currDir := n } where
  dirCount := h.dirCount
  inodeCount := h.inodeCount
  entries := h.entries

private theorem byte_eq (fs : FileSystem) {a : Nat} (h : a < 4294967296) : fs.byte a = fs.image a := by
  have hmod : a % 4294967296 = a := Nat.mod_eq_of_lt h
  unfold FileSystem.byte
  rw [hmod]

theorem word_eq (fs : FileSystem) {i : Nat} (h : 4 * i + 3 < 4294967296) : fs.word i = wordAt fs.image (4 * i) := by
  unfold FileSystem.word wordAt
  rw [byte_eq _ (by omega), byte_eq _ (by omega), byte_eq _ (by omega), byte_eq _ (by omega)]

/-- The file system finds what the inode has. -/
theorem InodeAt.holds {fs : FileSystem} {inodes blocks n : Nat} {contents : List UInt8}
    (h : InodeAt fs.image inodes blocks n contents) (hm : Mounted fs) (hinodes : wordAt fs.image 4 = inodes)
    (hfits : 4096 * (1 + inodes + blocks) ≤ 4294967296) (hsize : contents.length ≤ 1023 * 4096) :
    Holds fs n contents := by
  have hn := h.inRange
  have hcount : fs.bootBlockMain.inodeCount = inodes := by
    rw [hm.inodeCount, word_eq _ (by omega)]
    exact hinodes
  have hlength : fs.word (1024 * (1 + n)) = contents.length := by
    rw [word_eq _ (by omega), show 4 * (1024 * (1 + n)) = 4096 * (1 + n) by omega]
    exact h.length
  refine ⟨hlength, hsize, ?_⟩
  intro j hj
  have hblock := h.block (j / 4096) (by omega)
  have hdata := h.data j hj
  rw [hcount, word_eq _ (by omega),
    show 4 * (1024 * (1 + n) + 1 + j / 4096) = 4096 * (1 + n) + 4 * (1 + j / 4096) by omega]
  generalize wordAt fs.image (4096 * (1 + n) + 4 * (1 + j / 4096)) = block at hblock hdata ⊢
  rw [byte_eq _ (by omega), show 4 * (1024 * (1 + inodes + block)) = 4096 * (1 + inodes + block) by omega]
  exact hdata

namespace Layout

variable {fs : FileSystem} {files : List File} {inodes blocks i : Nat} {f : File}

theorem dirCount (h : Layout fs.image files inodes blocks) (hm : Mounted fs) :
    fs.bootBlockMain.dirCount = files.length := by
  rw [hm.dirCount, word_eq _ (by omega)]
  exact h.count

/-- The entry of file `i`. -/
theorem dentry (h : Layout fs.image files inodes blocks) (hm : Mounted fs) (hf : files[i]? = some f) :
    SameName (fs.bootBlockMain.direntries i).filename (cString f.name) 32 ∧
      (fs.bootBlockMain.direntries i).filetype = f.filetype ∧
      (fs.bootBlockMain.direntries i).inodeNum = wordAt fs.image (64 * (i + 1) + 36) := by
  have hi : i < files.length := (List.getElem?_eq_some_iff.1 hf).1
  have hle := h.atMost
  have hcount : fs.word 0 = files.length := by rw [← hm.dirCount, h.dirCount hm]
  have hentry := h.entry i f hf
  have hslot : fs.bootBlockMain.direntries i = fs.dentryAt i := by
    refine hm.entries i ?_
    rw [hcount, toInt32_of_mem (by omega) (by omega)]
    omega
  rw [hslot]
  unfold FileSystem.dentryAt
  dsimp only
  refine ⟨?_, ?_, ?_⟩
  · -- the names agree up to 32 characters, all of them in the boot block
    obtain ⟨m, hm32, hpre, hend⟩ := hentry.name
    have hbyte : ∀ j ≤ 32, fs.byte (4 * (16 * (i + 1)) + j) = fs.image (64 * (i + 1) + j) := by
      intro j hj
      rw [byte_eq _ (by omega), show 4 * (16 * (i + 1)) = 64 * (i + 1) by omega]
    refine ⟨m, hm32, ?_, ?_⟩
    · intro j hj
      dsimp only
      rw [hbyte j (by omega)]
      exact hpre j hj
    · intro hlt
      dsimp only
      rw [hbyte m hm32]
      exact hend hlt
  · rw [word_eq _ (by omega), show 4 * (16 * (i + 1) + 8) = 64 * (i + 1) + 32 by omega, hentry.filetype]
    have htype := f.filetypeLe
    exact toInt32_of_mem (by omega) (by omega)
  · rw [word_eq _ (by omega), show 4 * (16 * (i + 1) + 9) = 64 * (i + 1) + 36 by omega]

/-- A regular file is found behind its entry. -/
theorem holds (h : Layout fs.image files inodes blocks) (hm : Mounted fs) (hf : files[i]? = some f)
    (hregular : f.filetype = 2) : Holds fs (fs.bootBlockMain.direntries i).inodeNum f.contents := by
  rw [(h.dentry hm hf).2.2]
  exact ((h.entry i f hf).inode hregular).holds hm h.inodeCount h.fits f.size

/-- A name leads to the file that has it. -/
theorem names_eq (h : Layout fs.image files inodes blocks) (hm : Mounted fs) {filename : Nat → UInt8}
    (hname : Names fs filename i) (hf : f ∈ files) (hsame : SameName (cString f.name) filename 32) :
    files[i]? = some f := by
  obtain ⟨hi, hfound, -⟩ := hname
  rw [h.dirCount hm] at hi
  have hget : files[i]? = some files[i] := List.getElem?_eq_getElem hi
  have hentry := (h.dentry hm hget).1
  have heq : files[i].name = f.name :=
    SameName.eq files[i].nameBytes f.nameBytes files[i].nameLength.2 f.nameLength.2
      (hentry.symm.trans (hfound.trans hsame.symm))
  have hunique := List.inj_on_of_nodup_map h.distinct (List.getElem_mem hi) hf heq
  rw [hget, hunique]

end Layout

end BigChungOS
