import BigChungOS.FileImage

/-!
# Reading a slice of a file

`read_data` on the caller's buffer.  The model of the other modules keeps of its buffer what has been stored
(`readData`); here the loops store into memory, byte by byte (`readDataInto`), and do the same (`readDataInto_eq`).

In a well-formed image the file of an inode is what its data blocks hold, cut to its length (`fileBytes`).  `read_data`
and `exec_file_load` return the length of the slice that starts at the offset, store it at the start of the buffer and
store nothing else (`read_data_slice`).
-/

namespace BigChungOS

open Memory

/-! ### FileSystem.c on memory -/

/-- `while (i > 0)`: copy `i` bytes from `charPtr` to `buf + lengthRead`. -/
def copyInto (fs : FileSystem) : Nat → Nat → Nat → (Nat → UInt8) → Nat → UInt8
  | 0, _, _, buf => buf
  | i + 1, charPtr, lengthRead, buf =>
    copyInto fs i (charPtr + 1) (lengthRead + 1) (Function.update buf lengthRead (fs.byte charPtr))

/-- The outer loop of `read_data`: `length_read` and the memory from `buf` on. -/
def readBlocksInto (fs : FileSystem) (tempInode length : Nat) : Nat → Nat → Nat → Nat → (Nat → UInt8) →
    Int × (Nat → UInt8)
  | 0, _, _, lengthRead, buf => (lengthRead, buf)
  | fuel + 1, loop, offset, lengthRead, buf =>
    let tempPtr := 1024 * (1 + fs.bootBlockMain.inodeCount + fs.word (tempInode + 1 + loop))
    let charPtr := 4 * tempPtr + offset % 4096
    let i := (blockBytes (toInt32 (fs.word tempInode)) loop offset length lengthRead).toNat
    let buf := copyInto fs i charPtr lengthRead buf
    if lengthRead + i = length then ((lengthRead + i : Nat), buf)
    else readBlocksInto fs tempInode length fuel (loop + 1) ((offset + i) % 4294967296) (lengthRead + i) buf

/-- `read_data`: the return value and the memory from `buf` on. -/
def readDataInto (fs : FileSystem) (inode offset : Nat) (buf : Nat → UInt8) (length : Nat) : Int × (Nat → UInt8) :=
  let tempInode := 1024 * (1 + inode)
  let minBlock := offset / 4096
  let maxBlock := (toInt32 (fs.word tempInode)).tdiv 4096 + 1
  readBlocksInto fs tempInode length (maxBlock - minBlock).toNat minBlock offset 0 buf

/-- `exec_file_load`; its test for a negative length is one of an unsigned word. -/
def execFileLoadInto (fs : FileSystem) (inode offset : Nat) (buf : Nat → UInt8) (length : Nat) : Int × (Nat → UInt8) :=
  if offset = fs.word (1024 * (1 + inode)) then (0, buf) else readDataInto fs inode offset buf length

/-! ### What they store -/

private theorem copyInto_eq (fs : FileSystem) (i charPtr lengthRead : Nat) (buf : Nat → UInt8) :
    copyInto fs i charPtr lengthRead buf = storeAt buf lengthRead (copyBytes fs charPtr i) := by
  induction i generalizing charPtr lengthRead buf with
  | zero => simp [copyInto, copyBytes]
  | succ i ih => rw [copyInto, ih, copyBytes, storeAt_cons]

/-- The loop has stored `stored` at the start of `buf`. -/
private theorem readBlocksInto_eq (fs : FileSystem) (tempInode length fuel loop offset : Nat) (stored : List UInt8)
    (buf : Nat → UInt8) :
    readBlocksInto fs tempInode length fuel loop offset stored.length (storeAt buf 0 stored) =
      (((readBlocks fs tempInode length fuel loop offset stored).length : Int),
        storeAt buf 0 (readBlocks fs tempInode length fuel loop offset stored)) := by
  induction fuel generalizing loop offset stored with
  | zero => rfl
  | succ fuel ih =>
    unfold readBlocksInto readBlocks
    dsimp only
    generalize (blockBytes (toInt32 (fs.word tempInode)) loop offset length stored.length).toNat = i
    generalize 4 * (1024 * (1 + fs.bootBlockMain.inodeCount + fs.word (tempInode + 1 + loop))) + offset % 4096 = charPtr
    -- the bytes of this block go behind those that have been stored
    have hstored : copyInto fs i charPtr stored.length (storeAt buf 0 stored) =
        storeAt buf 0 (stored ++ copyBytes fs charPtr i) := by
      rw [copyInto_eq, storeAt_append, Nat.zero_add]
    have hlength : (stored ++ copyBytes fs charPtr i).length = stored.length + i := by
      rw [List.length_append, copyBytes_length]
    rw [hstored, ← hlength, ih]
    split
    · rfl
    · rfl

/-- `read_data` stores the bytes of `readData` at the start of the buffer. -/
theorem readDataInto_eq (fs : FileSystem) (inode offset length : Nat) (buf : Nat → UInt8) :
    readDataInto fs inode offset buf length =
      (((readData fs inode offset length).length : Int), storeAt buf 0 (readData fs inode offset length)) := by
  have h := readBlocksInto_eq fs (1024 * (1 + inode)) length
    ((toInt32 (fs.word (1024 * (1 + inode)))).tdiv 4096 + 1 - (offset / 4096 : Nat)).toNat (offset / 4096) offset [] buf
  rw [storeAt_nil] at h
  exact h

private theorem execFileLoadInto_eq (fs : FileSystem) (inode offset length : Nat) (buf : Nat → UInt8) :
    execFileLoadInto fs inode offset buf length =
      (((execFileLoad fs inode offset length).length : Int), storeAt buf 0 (execFileLoad fs inode offset length)) := by
  unfold execFileLoadInto execFileLoad
  split
  · simp
  · exact readDataInto_eq fs inode offset length buf

/-! ### The file of an inode -/

/-- Data block `n` of an image with `inodes` inodes. -/
def dataBlock (image : Nat → UInt8) (inodes n : Nat) : List UInt8 :=
  (List.range 4096).map fun j => image (4096 * (1 + inodes + n) + j)

/-- The data blocks of inode `n`, cut to its length. -/
def fileBytes (image : Nat → UInt8) (inodes n : Nat) : List UInt8 :=
  ((List.range ((wordAt image (4096 * (1 + n)) + 4095) / 4096)).flatMap fun b =>
    dataBlock image inodes (wordAt image (4096 * (1 + n) + 4 * (1 + b)))).take (wordAt image (4096 * (1 + n)))

/-- The header counts the inodes and the data blocks, the image fits in the address space, and every inode uses data
blocks of the image. -/
structure WellFormed (image : Nat → UInt8) (inodes blocks : Nat) : Prop where
  inodeCount : wordAt image 4 = inodes
  dataCount : wordAt image 8 = blocks
  fits : 4096 * (1 + inodes + blocks) ≤ 4294967296
  block : ∀ n < inodes, ∀ b < 1023, 4096 * b < wordAt image (4096 * (1 + n)) →
    wordAt image (4096 * (1 + n) + 4 * (1 + b)) < blocks

private theorem dataBlock_length (image : Nat → UInt8) (inodes n : Nat) : (dataBlock image inodes n).length = 4096 := by
  simp [dataBlock]

private theorem fileBytes_length (image : Nat → UInt8) (inodes n : Nat) :
    (fileBytes image inodes n).length = wordAt image (4096 * (1 + n)) := by
  rw [fileBytes, List.length_take, length_blocks (fun _ => dataBlock_length _ _ _)]
  omega

private theorem fileBytes_getElem? (image : Nat → UInt8) (inodes n : Nat) {j : Nat}
    (hj : j < wordAt image (4096 * (1 + n))) : (fileBytes image inodes n)[j]? =
      some (image (4096 * (1 + inodes + wordAt image (4096 * (1 + n) + 4 * (1 + j / 4096))) + j % 4096)) := by
  have hmod : j % 4096 < 4096 := Nat.mod_lt _ (by decide)
  rw [fileBytes, List.getElem?_take_of_lt hj, getElem?_blocks (fun _ => dataBlock_length _ _ _) (by omega), dataBlock,
    List.getElem?_map, List.getElem?_range hmod]
  rfl

private theorem WellFormed.inodeAt {image : Nat → UInt8} {inodes blocks n : Nat} (h : WellFormed image inodes blocks)
    (hn : n < inodes) (hsize : wordAt image (4096 * (1 + n)) ≤ 1023 * 4096) :
    InodeAt image inodes blocks n (fileBytes image inodes n) where
  inRange := hn
  length := (fileBytes_length image inodes n).symm
  block b hb := by
    rw [fileBytes_length] at hb
    exact h.block n hn b (by omega) hb
  data j hj := by
    rw [fileBytes_length] at hj
    exact fileBytes_getElem? image inodes n hj

/-- A call returns the length of the slice of `length` bytes from `offset` on, or of as many as there are, and stores
it at the start of the buffer and nothing besides. -/
structure Slices (file : List UInt8) (offset length : Nat) (buf : Nat → UInt8) (r : Int × (Nat → UInt8)) : Prop where
  result : r.1 = min length (file.length - offset)
  stored : ∀ j < min length (file.length - offset), file[offset + j]? = some (r.2 j)
  rest : ∀ j, min length (file.length - offset) ≤ j → r.2 j = buf j

private theorem slices_storeAt (file : List UInt8) (offset length : Nat) (buf : Nat → UInt8) :
    Slices file offset length buf
      ((((file.drop offset).take length).length : Int), storeAt buf 0 ((file.drop offset).take length)) where
  result := by rw [List.length_take, List.length_drop]
  stored j hj := by
    have hlength : j < ((file.drop offset).take length).length := by rwa [List.length_take, List.length_drop]
    have hstored := storeAt_of_mem buf 0 hlength
    rw [Nat.zero_add] at hstored
    dsimp only
    rw [hstored, List.getElem_take, List.getElem_drop, List.getElem?_eq_getElem]
  rest j hj := by
    refine sameOutside_storeAt buf 0 _ j ?_
    rw [List.length_take, List.length_drop]
    omega

/-- In a mounted well-formed image, `read_data` and `exec_file_load` read a slice of the file. -/
theorem read_data_slice {fs : FileSystem} {inodes blocks inode offset length : Nat} (hm : Mounted fs)
    (h : WellFormed fs.image inodes blocks) (hinode : inode < inodes)
    (hsize : wordAt fs.image (4096 * (1 + inode)) ≤ 1023 * 4096)
    (hoffset : offset ≤ wordAt fs.image (4096 * (1 + inode))) (hlength : length < 2147483648) (buf : Nat → UInt8) :
    (fileBytes fs.image inodes inode).length = wordAt fs.image (4096 * (1 + inode)) ∧
      Slices (fileBytes fs.image inodes inode) offset length buf (readDataInto fs inode offset buf length) ∧
      Slices (fileBytes fs.image inodes inode) offset length buf (execFileLoadInto fs inode offset buf length) := by
  have hbytes := fileBytes_length fs.image inodes inode
  have hholds := (h.inodeAt hinode hsize).holds hm h.inodeCount h.fits (by rwa [hbytes])
  have hdata : readData fs inode offset length = ((fileBytes fs.image inodes inode).drop offset).take length :=
    readData_spec hholds (by rw [hbytes]; exact hoffset) hlength
  -- at the end of the file `exec_file_load` does not call `read_data`, and the slice is empty
  have hload : execFileLoad fs inode offset length = ((fileBytes fs.image inodes inode).drop offset).take length := by
    unfold execFileLoad
    split
    · next hend =>
      rw [hend, hholds.length, List.drop_length, List.take_nil]
    · exact hdata
  rw [readDataInto_eq, execFileLoadInto_eq, hdata, hload]
  exact ⟨hbytes, slices_storeAt _ offset length buf, slices_storeAt _ offset length buf⟩

/-- An image with one inode, whose 5000 bytes are in data block 1 and, from the 4096th on, in data block 0. -/
def twoBlocks : Nat → UInt8 := fun a =>
  if a = 4 then 1 else if a = 8 then 2
  else if a = 4096 then 0x88 else if a = 4097 then 0x13 else if a = 4100 then 1
  else if 8192 ≤ a ∧ a < 12288 then 0x42 else if 12288 ≤ a ∧ a < 16384 then 0x41 else 0

/-- The file system after that image has been mounted. -/
def twoBlocksFs : FileSystem :=
  (dirOpen ⟨0x500000, twoBlocks, ⟨0, 0, 0, fun _ => emptyDentry⟩, 0, false⟩ (cString (asBytes "."))).1

theorem twoBlocks_wellFormed : WellFormed twoBlocksFs.image 1 2 where
  inodeCount := by decide +kernel
  dataCount := by decide +kernel
  fits := by decide
  block n hn b _ hb := by
    obtain rfl : n = 0 := by omega
    have hlength : wordAt twoBlocksFs.image (4096 * (1 + 0)) = 5000 := by decide +kernel
    rw [hlength] at hb
    obtain rfl | rfl : b = 0 ∨ b = 1 := by omega
    · decide +kernel
    · decide +kernel

/-- A slice that crosses from one block to the other. -/
theorem twoBlocks_slice :
    (fileBytes twoBlocks 1 0).length = wordAt twoBlocks 4096 ∧
      Slices (fileBytes twoBlocks 1 0) 4090 20 (fun _ => 0) (readDataInto twoBlocksFs 0 4090 (fun _ => 0) 20) ∧
      Slices (fileBytes twoBlocks 1 0) 4090 20 (fun _ => 0) (execFileLoadInto twoBlocksFs 0 4090 (fun _ => 0) 20) := by
  have hmounted : Mounted twoBlocksFs := dirOpen_mounted rfl rfl
  exact read_data_slice hmounted twoBlocks_wellFormed (by decide) (by decide +kernel) (by decide +kernel) (by decide)
    (fun _ => 0)

end BigChungOS
