import BigChungOS.ReadData

/-!
# Which bytes of the image `read_data` reads

`readDataTrace` is `read_data` again, with a record of what it looks at: the entries of the inode it consults, and for
every byte it copies the position in the file, the address and the index in the buffer.  The bytes are those of the
model of the call (`readDataTrace_bytes`).

A read that starts inside the file keeps to the file, and consults the entries of the blocks from the one it starts in
to the one it ends in (`mem_readBlocksTrace_entries`).  The two boundary cases are different: a read that starts behind
the end of the file, in its last block, copies what it was asked for, and in a file of the maximal length the loop goes
one entry too far.  `read_data_inside_iff` says exactly when a read stays inside.
-/

namespace BigChungOS

open Memory

/-! ### The loops with a record -/

/-- One execution of `*(buf+length_read) = *char_ptr`: the value of `offset`, the address read and the index stored. -/
structure Copied where
  position : Nat
  address : Nat
  index : Nat

/-- What a read looks at: the word addresses of the entries `temp_inode + 1 + loop`, and the bytes. -/
structure ReadTrace where
  entries : List Nat
  bytes : List Copied

/-- `while (i > 0)`. -/
def copyTrace : Nat → Nat → Nat → Nat → List Copied
  | 0, _, _, _ => []
  | i + 1, charPtr, offset, lengthRead =>
    ⟨offset, charPtr, lengthRead⟩ :: copyTrace i (charPtr + 1) ((offset + 1) % 4294967296) (lengthRead + 1)

/-- The outer loop of `read_data`. -/
def readBlocksTrace (fs : FileSystem) (tempInode length : Nat) : Nat → Nat → Nat → Nat → ReadTrace
  | 0, _, _, _ => ⟨[], []⟩
  | fuel + 1, loop, offset, lengthRead =>
    let tempPtr := 1024 * (1 + fs.bootBlockMain.inodeCount + fs.word (tempInode + 1 + loop))
    let charPtr := 4 * tempPtr + offset % 4096
    let i := (blockBytes (toInt32 (fs.word tempInode)) loop offset length lengthRead).toNat
    let bytes := copyTrace i charPtr offset lengthRead
    if lengthRead + i = length then ⟨[tempInode + 1 + loop], bytes⟩
    else
      let rest := readBlocksTrace fs tempInode length fuel (loop + 1) ((offset + i) % 4294967296) (lengthRead + i)
      ⟨(tempInode + 1 + loop) :: rest.entries, bytes ++ rest.bytes⟩

/-- `read_data`. -/
def readDataTrace (fs : FileSystem) (inode offset length : Nat) : ReadTrace :=
  let tempInode := 1024 * (1 + inode)
  let minBlock := offset / 4096
  let maxBlock := (toInt32 (fs.word tempInode)).tdiv 4096 + 1
  readBlocksTrace fs tempInode length (maxBlock - minBlock).toNat minBlock offset 0

/-! ### The record is one of the call -/

private theorem copyTrace_length (i charPtr offset lengthRead : Nat) :
    (copyTrace i charPtr offset lengthRead).length = i := by
  induction i generalizing charPtr offset lengthRead with
  | zero => rfl
  | succ i ih => rw [copyTrace, List.length_cons, ih]

/-- The addresses are those the call copies from. -/
private theorem copyTrace_bytes (fs : FileSystem) (i charPtr offset lengthRead : Nat) :
    (copyTrace i charPtr offset lengthRead).map (fun b => fs.byte b.address) = copyBytes fs charPtr i := by
  induction i generalizing charPtr offset lengthRead with
  | zero => rfl
  | succ i ih => rw [copyTrace, List.map_cons, ih, copyBytes]

private theorem copyTrace_index (i charPtr offset lengthRead : Nat) :
    (copyTrace i charPtr offset lengthRead).map Copied.index = List.range' lengthRead i := by
  induction i generalizing charPtr offset lengthRead with
  | zero => rfl
  | succ i ih => rw [copyTrace, List.map_cons, ih, List.range'_succ]

/-- One round of the outer loop. -/
private theorem readBlocksTrace_succ {fs : FileSystem} {tempInode length fuel loop offset lengthRead i charPtr : Nat}
    (hi : (blockBytes (toInt32 (fs.word tempInode)) loop offset length lengthRead).toNat = i)
    (hptr : 4 * (1024 * (1 + fs.bootBlockMain.inodeCount + fs.word (tempInode + 1 + loop))) + offset % 4096 = charPtr) :
    readBlocksTrace fs tempInode length (fuel + 1) loop offset lengthRead =
      if lengthRead + i = length then ⟨[tempInode + 1 + loop], copyTrace i charPtr offset lengthRead⟩
      else
        let rest := readBlocksTrace fs tempInode length fuel (loop + 1) ((offset + i) % 4294967296) (lengthRead + i)
        ⟨(tempInode + 1 + loop) :: rest.entries, copyTrace i charPtr offset lengthRead ++ rest.bytes⟩ := by
  subst hi hptr
  rfl

private theorem readBlocksTrace_bytes (fs : FileSystem) (tempInode length fuel loop offset : Nat) (buf : List UInt8) :
    buf ++ (readBlocksTrace fs tempInode length fuel loop offset buf.length).bytes.map (fun b => fs.byte b.address) =
      readBlocks fs tempInode length fuel loop offset buf := by
  induction fuel generalizing loop offset buf with
  | zero => simp [readBlocksTrace, readBlocks]
  | succ fuel ih =>
    obtain ⟨i, hi⟩ : ∃ i, (blockBytes (toInt32 (fs.word tempInode)) loop offset length buf.length).toNat = i := ⟨_, rfl⟩
    obtain ⟨charPtr, hptr⟩ : ∃ charPtr, 4 * (1024 * (1 + fs.bootBlockMain.inodeCount +
        fs.word (tempInode + 1 + loop))) + offset % 4096 = charPtr := ⟨_, rfl⟩
    have hround : readBlocks fs tempInode length (fuel + 1) loop offset buf =
        if (buf ++ copyBytes fs charPtr i).length = length then buf ++ copyBytes fs charPtr i
        else readBlocks fs tempInode length fuel (loop + 1) ((offset + i) % 4294967296)
          (buf ++ copyBytes fs charPtr i) := by
      subst hi hptr
      rfl
    rw [readBlocksTrace_succ hi hptr, hround]
    have hlength : (buf ++ copyBytes fs charPtr i).length = buf.length + i := by
      rw [List.length_append, copyBytes_length]
    by_cases hfull : buf.length + i = length
    · rw [if_pos hfull, if_pos (hlength.trans hfull), copyTrace_bytes]
    · have hmore : (buf ++ copyBytes fs charPtr i).length ≠ length := by rwa [hlength]
      rw [if_neg hfull, if_neg hmore, List.map_append, copyTrace_bytes, ← List.append_assoc, ← hlength, ih]

private theorem readBlocksTrace_index (fs : FileSystem) (tempInode length fuel loop offset lengthRead : Nat) :
    (readBlocksTrace fs tempInode length fuel loop offset lengthRead).bytes.map Copied.index =
      List.range' lengthRead (readBlocksTrace fs tempInode length fuel loop offset lengthRead).bytes.length := by
  induction fuel generalizing loop offset lengthRead with
  | zero => rfl
  | succ fuel ih =>
    obtain ⟨i, hi⟩ : ∃ i, (blockBytes (toInt32 (fs.word tempInode)) loop offset length lengthRead).toNat = i := ⟨_, rfl⟩
    rw [readBlocksTrace_succ hi rfl]
    by_cases hfull : lengthRead + i = length
    · rw [if_pos hfull, copyTrace_index, copyTrace_length]
    · rw [if_neg hfull, List.map_append, copyTrace_index, ih, List.length_append, copyTrace_length,
        List.range'_append_1]

/-- The bytes recorded are the ones `read_data` stores, at the indices from 0 on. -/
theorem readDataTrace_bytes (fs : FileSystem) (inode offset length : Nat) :
    (readDataTrace fs inode offset length).bytes.map (fun b => fs.byte b.address) = readData fs inode offset length ∧
      (readDataTrace fs inode offset length).bytes.map Copied.index =
        List.range (readDataTrace fs inode offset length).bytes.length := by
  have hbytes := readBlocksTrace_bytes fs (1024 * (1 + inode)) length
    ((toInt32 (fs.word (1024 * (1 + inode)))).tdiv 4096 + 1 - (offset / 4096 : Nat)).toNat (offset / 4096) offset []
  have hindex := readBlocksTrace_index fs (1024 * (1 + inode)) length
    ((toInt32 (fs.word (1024 * (1 + inode)))).tdiv 4096 + 1 - (offset / 4096 : Nat)).toNat (offset / 4096) offset 0
  rw [List.nil_append, List.length_nil] at hbytes
  rw [← List.range_eq_range'] at hindex
  exact ⟨hbytes, hindex⟩

/-! ### A read that starts inside the file -/

private theorem mem_copyTrace {i charPtr offset lengthRead : Nat} {b : Copied} (hfits : offset + i ≤ 4294967296)
    (hb : b ∈ copyTrace i charPtr offset lengthRead) :
    offset ≤ b.position ∧ b.position < offset + i ∧ b.address = charPtr + (b.position - offset) := by
  induction i generalizing charPtr offset lengthRead with
  | zero => simp [copyTrace] at hb
  | succ i ih =>
    rw [copyTrace, List.mem_cons] at hb
    rcases hb with rfl | hrest
    · exact ⟨le_refl _, Nat.lt_add_of_pos_right (Nat.succ_pos i), by simp⟩
    · by_cases hlast : i = 0
      · subst hlast
        simp [copyTrace] at hrest
      · have hnext : (offset + 1) % 4294967296 = offset + 1 := Nat.mod_eq_of_lt (by omega)
        rw [hnext] at hrest
        have hmem := ih (by omega) hrest
        omega

section Inside

variable {fs : FileSystem} {tempInode size length fuel loop offset lengthRead : Nat}

/-- The bytes of a round, in a block the file has bytes in. -/
private theorem round_eq (hword : fs.word tempInode = size) (hsize : size ≤ 1023 * 4096) (hlength : length < 2147483648)
    (hread : lengthRead ≤ length) (hoffset : offset ≤ size) (hlo : 4096 * loop ≤ offset)
    (hhi : offset < 4096 * (loop + 1)) :
    (blockBytes (toInt32 (fs.word tempInode)) loop offset length lengthRead).toNat =
      min (min (4096 * (loop + 1)) size - offset) (length - lengthRead) := by
  have hint : toInt32 (size : Int) = size := toInt32_of_mem (by omega) (by omega)
  rw [hword, hint]
  exact blockBytes_eq hsize hlo hhi hoffset hread hlength

/-- Every byte is one of the file, from the offset on, and is read where the blocks of the inode have it. -/
private theorem readBlocksTrace_positions (hword : fs.word tempInode = size) (hsize : size ≤ 1023 * 4096)
    (hlength : length < 2147483648) (hread : lengthRead ≤ length) (hoffset : offset ≤ size)
    (hfuel : loop + fuel = size / 4096 + 1) (hloop : fuel = 0 ∨ (4096 * loop ≤ offset ∧ offset < 4096 * (loop + 1))) :
    ∀ b ∈ (readBlocksTrace fs tempInode length fuel loop offset lengthRead).bytes,
      offset ≤ b.position ∧ b.position < size ∧
        b.address = 4 * (1024 * (1 + fs.bootBlockMain.inodeCount + fs.word (tempInode + 1 + b.position / 4096))) +
          b.position % 4096 := by
  induction fuel generalizing loop offset lengthRead with
  | zero =>
    intro b hb
    simp [readBlocksTrace] at hb
  | succ fuel ih =>
    intro b hb
    obtain ⟨hlo, hhi⟩ : 4096 * loop ≤ offset ∧ offset < 4096 * (loop + 1) := by omega
    rw [readBlocksTrace_succ (round_eq hword hsize hlength hread hoffset hlo hhi) rfl] at hb
    generalize hi : min (min (4096 * (loop + 1)) size - offset) (length - lengthRead) = i at hb
    -- this round stays in block `loop`
    have hround : b ∈ copyTrace i (4 * (1024 * (1 + fs.bootBlockMain.inodeCount + fs.word (tempInode + 1 + loop))) +
        offset % 4096) offset lengthRead → offset ≤ b.position ∧ b.position < size ∧
        b.address = 4 * (1024 * (1 + fs.bootBlockMain.inodeCount + fs.word (tempInode + 1 + b.position / 4096))) +
          b.position % 4096 := by
      intro hmem
      obtain ⟨hge, hlt, haddress⟩ := mem_copyTrace (by omega) hmem
      have hdiv : b.position / 4096 = loop := by omega
      refine ⟨hge, by omega, ?_⟩
      rw [haddress, hdiv]
      omega
    by_cases hfull : lengthRead + i = length
    · rw [if_pos hfull] at hb
      exact hround hb
    · rw [if_neg hfull] at hb
      rcases List.mem_append.1 hb with hmem | hmem
      · exact hround hmem
      · have hnext : (offset + i) % 4294967296 = offset + i := Nat.mod_eq_of_lt (by omega)
        rw [hnext] at hmem
        obtain ⟨hge, hrest⟩ := ih (by omega) (by omega) (by omega) (by omega) b hmem
        exact ⟨by omega, hrest⟩

/-- The entries consulted are those of the first block, and of every later one that the read gets to. -/
theorem mem_readBlocksTrace_entries (hword : fs.word tempInode = size) (hsize : size ≤ 1023 * 4096)
    (hlength : length < 2147483648) (hread : lengthRead ≤ length) (hoffset : offset ≤ size)
    (hfuel : loop + fuel = size / 4096 + 1) (hloop : fuel = 0 ∨ (4096 * loop ≤ offset ∧ offset < 4096 * (loop + 1)))
    {e : Nat} :
    e ∈ (readBlocksTrace fs tempInode length fuel loop offset lengthRead).entries ↔
      ∃ l, e = tempInode + 1 + l ∧ loop ≤ l ∧ l ≤ size / 4096 ∧
        (l = loop ∨ 4096 * l < offset + (length - lengthRead)) := by
  induction fuel generalizing loop offset lengthRead with
  | zero =>
    constructor
    · intro he
      simp [readBlocksTrace] at he
    · rintro ⟨l, -, hge, hle, -⟩
      omega
  | succ fuel ih =>
    obtain ⟨hlo, hhi⟩ : 4096 * loop ≤ offset ∧ offset < 4096 * (loop + 1) := by omega
    rw [readBlocksTrace_succ (round_eq hword hsize hlength hread hoffset hlo hhi) rfl]
    generalize hi : min (min (4096 * (loop + 1)) size - offset) (length - lengthRead) = i
    by_cases hfull : lengthRead + i = length
    · -- the caller has all it wants, at the latest at the end of this block
      rw [if_pos hfull, List.mem_singleton]
      constructor
      · rintro rfl
        exact ⟨loop, rfl, le_refl _, by omega, .inl rfl⟩
      · rintro ⟨l, rfl, hge, -, hl⟩
        omega
    · have hnext : (offset + i) % 4294967296 = offset + i := Nat.mod_eq_of_lt (by omega)
      rw [if_neg hfull, List.mem_cons, hnext, ih (by omega) (by omega) (by omega) (by omega)]
      constructor
      · rintro (rfl | ⟨l, rfl, hge, hle, hl⟩)
        · exact ⟨loop, rfl, le_refl _, by omega, .inl rfl⟩
        · exact ⟨l, rfl, by omega, hle, .inr (by omega)⟩
      · rintro ⟨l, rfl, hge, hle, hl⟩
        by_cases hfirst : l = loop
        · exact .inl (by omega)
        · exact .inr ⟨l, rfl, by omega, hle, by omega⟩

end Inside

/-! ### Staying inside -/

/-- A read of `length` bytes from `offset` on of a file of `size` bytes copies only bytes of the file, so that nothing
is returned or stored from the end of the file on, and consults only entries of the 1024 words of its inode. -/
structure ReadInside (fs : FileSystem) (inode size offset length : Nat) (buf : Nat → UInt8) : Prop where
  bytes : ∀ b ∈ (readDataTrace fs inode offset length).bytes, b.position < size
  atEnd : size ≤ offset → readDataInto fs inode offset buf length = (0, buf)
  entries : ∀ e ∈ (readDataTrace fs inode offset length).entries,
    1024 * (1 + inode) ≤ e ∧ e < 1024 * (1 + inode) + 1024

section Bounds

variable {fs : FileSystem} {inode size offset length : Nat}

private theorem readDataTrace_eq (hword : fs.word (1024 * (1 + inode)) = size) (hsize : size ≤ 1023 * 4096) :
    readDataTrace fs inode offset length =
      readBlocksTrace fs (1024 * (1 + inode)) length (size / 4096 + 1 - offset / 4096) (offset / 4096) offset 0 := by
  have hint : toInt32 (size : Int) = size := toInt32_of_mem (by omega) (by omega)
  have hdiv : (size : Int).tdiv 4096 = (size / 4096 : Nat) := rfl
  have hfuel : ((size / 4096 : Nat) + 1 - (offset / 4096 : Nat) : Int).toNat = size / 4096 + 1 - offset / 4096 := by
    omega
  unfold readDataTrace
  dsimp only
  rw [hword, hint, hdiv, hfuel]

/-- Behind the end of the file, in its last block, the count is negative; compared as unsigned it is large, and the
caller gets what it asked for. -/
private theorem blockBytes_past {loop : Nat} (hlo : 4096 * loop ≤ size) (hpast : size < offset)
    (hhi : offset < 4096 * (loop + 1)) (hsize : size ≤ 1023 * 4096) (hlength : length < 2147483648) :
    (blockBytes size loop offset length 0).toNat = length := by
  have hend : toInt32 (4096 * ((loop : Int) + 1)) = 4096 * (loop + 1) := toInt32_of_mem (by omega) (by omega)
  have hfile : toInt32 ((size : Int) - offset) = size - offset := toInt32_of_mem (by omega) (by omega)
  have hwant : toInt32 ((length : Int) - (0 : Nat)) = length := by
    rw [Int.natCast_zero, Int.sub_zero]
    exact toInt32_of_mem (by omega) (by omega)
  have hnot : ¬(size : Int) > 4096 * (loop + 1) := by omega
  have hlarge : toUInt32 ((size : Int) - offset) > toUInt32 ((length : Int) - (0 : Nat)) := by
    unfold toUInt32
    omega
  unfold blockBytes
  dsimp only
  rw [hend, if_neg hnot, hfile, if_pos hlarge, hwant]
  omega

private theorem readDataTrace_past (hword : fs.word (1024 * (1 + inode)) = size) (hsize : size ≤ 1023 * 4096)
    (hlength : length < 2147483648) (hpast : size < offset) (hblock : offset / 4096 = size / 4096) :
    ∃ charPtr, readDataTrace fs inode offset length =
      ⟨[1024 * (1 + inode) + 1 + size / 4096], copyTrace length charPtr offset 0⟩ := by
  have hint : toInt32 (size : Int) = size := toInt32_of_mem (by omega) (by omega)
  have hi : (blockBytes (toInt32 (fs.word (1024 * (1 + inode)))) (size / 4096) offset length 0).toNat = length := by
    rw [hword, hint]
    exact blockBytes_past (by omega) hpast (by omega) hsize hlength
  have hfuel : size / 4096 + 1 - size / 4096 = 0 + 1 := by omega
  refine ⟨4 * (1024 * (1 + fs.bootBlockMain.inodeCount + fs.word (1024 * (1 + inode) + 1 + size / 4096))) +
    offset % 4096, ?_⟩
  rw [readDataTrace_eq hword hsize, hblock, hfuel, readBlocksTrace_succ hi rfl, if_pos (Nat.zero_add _)]

/-- Nothing is recorded from the end of the file on, when only bytes of the file are. -/
private theorem readDataInto_atEnd (hnone : (readDataTrace fs inode offset length).bytes = [])
    (buf : Nat → UInt8) : readDataInto fs inode offset buf length = (0, buf) := by
  have hdata : readData fs inode offset length = [] := by
    rw [← (readDataTrace_bytes fs inode offset length).1, hnone, List.map_nil]
  rw [readDataInto_eq, hdata, storeAt_nil]
  rfl

/-- A read that starts at or before the end of the file copies bytes of the file only; it consults the entry behind the
last one exactly if it goes past a file that fills all blocks. -/
private theorem readInside_within (hword : fs.word (1024 * (1 + inode)) = size) (hsize : size ≤ 1023 * 4096)
    (hlength : length < 2147483648) (hstart : offset ≤ size) (buf : Nat → UInt8) :
    ReadInside fs inode size offset length buf ↔
      size < 1023 * 4096 ∨ 1024 * 4096 ≤ offset ∨ (offset < size ∧ offset + length ≤ size) := by
  have hfuel : offset / 4096 + (size / 4096 + 1 - offset / 4096) = size / 4096 + 1 := by omega
  have hfirst : 4096 * (offset / 4096) ≤ offset ∧ offset < 4096 * (offset / 4096 + 1) := by omega
  have hbytes := readBlocksTrace_positions hword hsize hlength (Nat.zero_le _) hstart hfuel (.inr hfirst)
  have hentries := fun e => mem_readBlocksTrace_entries hword hsize hlength (Nat.zero_le _) hstart hfuel
    (.inr hfirst) (e := e)
  rw [← readDataTrace_eq hword hsize] at hbytes hentries
  constructor
  · intro hinside
    by_contra hall
    -- block 1023 is reached, and its entry would be the first word of the next block
    have hlast := (hinside.entries _ ((hentries _).2 ⟨1023, rfl, by omega, by omega, by omega⟩)).2
    omega
  · intro hlast
    refine ⟨fun b hb => (hbytes b hb).2.1, ?_, ?_⟩
    · intro hend
      refine readDataInto_atEnd ?_ buf
      rw [List.eq_nil_iff_forall_not_mem]
      intro b hb
      have hpos := hbytes b hb
      omega
    · intro e he
      obtain ⟨l, rfl, hge, hle, hl⟩ := (hentries e).1 he
      omega

/-- A read that starts behind the end of the file, in its last block, makes one round, which copies all that was asked
for. -/
private theorem readInside_past (hword : fs.word (1024 * (1 + inode)) = size) (hsize : size ≤ 1023 * 4096)
    (hlength : length < 2147483648) (hpast : size < offset) (hblock : offset / 4096 = size / 4096)
    (buf : Nat → UInt8) :
    ReadInside fs inode size offset length buf ↔ length = 0 ∧ size < 1023 * 4096 := by
  obtain ⟨charPtr, htrace⟩ := readDataTrace_past hword hsize hlength hpast hblock
  constructor
  · intro hinside
    have hlast := (hinside.entries (1024 * (1 + inode) + 1 + size / 4096) (by simp [htrace])).2
    refine ⟨?_, by omega⟩
    by_contra hpos
    obtain ⟨n, rfl⟩ : ∃ n, length = n + 1 := ⟨length - 1, by omega⟩
    have hfirst := hinside.bytes ⟨offset, charPtr, 0⟩ (by simp [htrace, copyTrace])
    exact absurd hfirst (Nat.not_lt.2 hpast.le)
  · rintro ⟨rfl, hlast⟩
    refine ⟨by simp [htrace, copyTrace], fun _ => readDataInto_atEnd (by rw [htrace]; rfl) buf, ?_⟩
    intro e he
    rw [htrace, List.mem_singleton] at he
    omega

end Bounds

/-- A read stays inside its file and its inode exactly when it does not start behind the end of the file in its last
block (asking for anything), and does not go past the last byte of a file that fills all 1023 blocks. -/
theorem read_data_inside_iff {fs : FileSystem} {inodes blocks inode size offset length : Nat}
    (h : WellFormed fs.image inodes blocks) (hinode : inode < inodes)
    (hsize : wordAt fs.image (4096 * (1 + inode)) = size) (hmax : size ≤ 1023 * 4096) (hoffset : offset < 4294967296)
    (hlength : length < 2147483648) (buf : Nat → UInt8) :
    ReadInside fs inode size offset length buf ↔
      (offset ≤ size ∨ length = 0 ∨ size / 4096 < offset / 4096) ∧
        (size < 1023 * 4096 ∨ 1024 * 4096 ≤ offset ∨ (offset < size ∧ offset + length ≤ size)) := by
  have hfits := h.fits
  have hword : fs.word (1024 * (1 + inode)) = size := by
    rw [word_eq _ (by omega), show 4 * (1024 * (1 + inode)) = 4096 * (1 + inode) by omega]
    exact hsize
  rcases Nat.lt_or_ge (size / 4096) (offset / 4096) with hlater | hblock
  · -- the loop is over before it starts
    have hfuel : size / 4096 + 1 - offset / 4096 = 0 := by omega
    have hnone : readDataTrace fs inode offset length = ⟨[], []⟩ := by
      rw [readDataTrace_eq hword hmax, hfuel]
      rfl
    have hinside : ReadInside fs inode size offset length buf :=
      { bytes := by simp [hnone]
        atEnd := fun _ => readDataInto_atEnd (by rw [hnone]) buf
        entries := by simp [hnone] }
    exact ⟨fun _ => ⟨.inr (.inr hlater), by omega⟩, fun _ => hinside⟩
  · by_cases hstart : offset ≤ size
    · rw [readInside_within hword hmax hlength hstart]
      exact ⟨fun hlast => ⟨.inl hstart, hlast⟩, And.right⟩
    · rw [readInside_past hword hmax hlength (by omega) (by omega)]
      omega

/-- A read from the middle of block 0 to the end of the file. -/
theorem twoBlocks_inside_iff :
    ReadInside twoBlocksFs 0 5000 4090 910 (fun _ => 0) ↔
      (4090 ≤ 5000 ∨ 910 = 0 ∨ 5000 / 4096 < 4090 / 4096) ∧
        (5000 < 1023 * 4096 ∨ 1024 * 4096 ≤ 4090 ∨ (4090 < 5000 ∧ 4090 + 910 ≤ 5000)) :=
  read_data_inside_iff twoBlocks_wellFormed (by decide) (by decide +kernel) (by decide) (by decide) (by decide)
    (fun _ => 0)

/-- One byte is read at position 6000 of the 5000 of the file. -/
theorem read_past_end :
    WellFormed twoBlocksFs.image 1 2 ∧ wordAt twoBlocksFs.image (4096 * (1 + 0)) = 5000 ∧
      (readDataInto twoBlocksFs 0 6000 (fun _ => 0) 1).1 = 1 ∧ ¬ReadInside twoBlocksFs 0 5000 6000 1 (fun _ => 0) := by
  refine ⟨twoBlocks_wellFormed, by decide +kernel, by decide +kernel, ?_⟩
  intro hinside
  have hbytes : (readDataTrace twoBlocksFs 0 6000 1).bytes.map Copied.position = [6000] := by decide +kernel
  obtain ⟨b, hb, hposition⟩ := List.mem_map.1 (hbytes ▸ List.mem_singleton_self 6000)
  have hlt := hinside.bytes b hb
  omega

end BigChungOS
