import BigChungOS.Keyboard
import BigChungOS.Processes

/-!
# What `sys_read` stores in the caller's buffer

A read of `nbytes` bytes should store at most `nbytes` bytes and return their number or -1 (`Confined`).  Reads of
regular files and of the RTC always do.  `terminal_read` copies the NUL after the line too, one byte too many when the
line fills the buffer, and `dir_read` never looks at `nbytes`: `sysRead_confined_iff` says exactly which reads stay
inside.
-/

namespace BigChungOS

open Memory

/-- A read of `nbytes` bytes that stored `stored` from the start of the buffer on and returned `r`. -/
def Confined (nbytes r : Int) (stored : List UInt8) : Prop :=
  (stored.length : Int) ≤ nbytes ∧ (r = -1 ∨ (0 ≤ r ∧ r ≤ nbytes))

/-- The length of the name `dir_read` is about to store. -/
def nextNameLength (fs : FileSystem) : Nat :=
  (((List.range 32).map (readDentryByIndex fs fs.currDir emptyDentry).1.filename).takeWhile (· ≠ 0)).length

/-- What a handler would store leaves room: the line of a terminal is shorter than the buffer, or empty, or not
wanted; the next name of the directory fits, or there is none. -/
def ReadFits (k : Kernel) (nbytes : Int) : Fop → Prop
  | .terminal =>
    nbytes = 0 ∨ k.keyboard.keyboardBuffer 0 = newline ∨
      ∀ count, lineLength k.keyboard.keyboardBuffer = some count → (count : Int) < nbytes
  | .dir =>
    k.fs.dirIsOpen = false ∨ toInt32 k.fs.bootBlockMain.dirCount ≤ k.fs.currDir ∨ (nextNameLength k.fs : Int) ≤ nbytes
  | .file | .rtc | .null => True

private theorem confined_nil {nbytes r : Int} (hn : 0 ≤ nbytes) (hr : r = -1 ∨ r = 0) : Confined nbytes r [] := by
  refine ⟨by simpa using hn, ?_⟩
  omega

private theorem confined_length_iff {nbytes : Int} {stored : List UInt8} :
    Confined nbytes stored.length stored ↔ (stored.length : Int) ≤ nbytes := by
  unfold Confined
  omega

/-! ### Regular files -/

/-- One block never brings more than the caller still wants. -/
private theorem blockBytes_le {inodeLength : Int} {loop offset length lengthRead : Nat} (hread : lengthRead ≤ length)
    (hlength : length < 2147483648) :
    (blockBytes inodeLength loop offset length lengthRead).toNat ≤ length - lengthRead := by
  unfold blockBytes
  dsimp only
  have hi : (if inodeLength > toInt32 (4096 * ((loop : Int) + 1)) then
      toInt32 (toInt32 (4096 * ((loop : Int) + 1)) - offset) else toInt32 (inodeLength - offset)) < 2147483648 := by
    split <;> exact (toInt32_lt _).2
  generalize (if inodeLength > toInt32 (4096 * ((loop : Int) + 1)) then
    toInt32 (toInt32 (4096 * ((loop : Int) + 1)) - offset) else toInt32 (inodeLength - offset)) = i at hi ⊢
  have hwant : toInt32 ((length : Int) - lengthRead) = (length : Int) - lengthRead :=
    toInt32_of_mem (by omega) (by omega)
  have hwant' : toUInt32 ((length : Int) - lengthRead) = length - lengthRead := by
    unfold toUInt32; omega
  split
  · rw [hwant]
    omega
  · next hle =>
    rw [hwant'] at hle
    unfold toUInt32 at hle
    omega

private theorem readBlocks_length_le (fs : FileSystem) {tempInode length fuel loop offset : Nat} {buf : List UInt8}
    (hbuf : buf.length ≤ length) (hlength : length < 2147483648) :
    (readBlocks fs tempInode length fuel loop offset buf).length ≤ length := by
  induction fuel generalizing loop offset buf with
  | zero => exact hbuf
  | succ fuel ih =>
    have hblock :
        (blockBytes (toInt32 (fs.word tempInode)) loop offset length buf.length).toNat ≤ length - buf.length :=
      blockBytes_le hbuf hlength
    unfold readBlocks
    dsimp only
    split
    · next hfull => exact hfull.le
    · refine ih ?_
      rw [List.length_append, copyBytes_length]
      omega

private theorem fileRead_confined (fs : FileSystem) (inode fileBytesRead : Nat) {nbytes : Int} (hn : 0 ≤ nbytes)
    (hmax : nbytes < 2147483648) :
    Confined nbytes (fileRead fs inode fileBytesRead nbytes).1 (fileRead fs inode fileBytesRead nbytes).2 := by
  have hneg : ¬nbytes < 0 := by omega
  unfold fileRead
  rw [if_neg hneg]
  dsimp only
  split
  · exact confined_nil hn (.inr rfl)
  · have hle : (readData fs inode fileBytesRead nbytes.toNat).length ≤ nbytes.toNat :=
      readBlocks_length_le fs (Nat.zero_le _) (by omega)
    generalize readData fs inode fileBytesRead nbytes.toNat = stored at hle ⊢
    exact confined_length_iff.2 (by omega)

/-! ### Directories and terminals -/

private theorem dirRead_confined_iff {k : Kernel} {nbytes : Int} (hn : 0 ≤ nbytes) :
    Confined nbytes (dirRead k.fs).2.1 (dirRead k.fs).2.2 ↔ ReadFits k nbytes .dir := by
  unfold dirRead ReadFits
  by_cases hopen : k.fs.dirIsOpen = false
  · simp [hopen, confined_nil hn (.inl rfl)]
  · rw [if_neg hopen]
    by_cases hmore : (k.fs.currDir : Int) < toInt32 k.fs.bootBlockMain.dirCount
    · rw [if_pos hmore]
      have hnot : ¬toInt32 k.fs.bootBlockMain.dirCount ≤ k.fs.currDir := by omega
      rw [confined_length_iff]
      simp [hopen, hnot, nextNameLength]
    · rw [if_neg hmore]
      have hdone : toInt32 k.fs.bootBlockMain.dirCount ≤ k.fs.currDir := by omega
      simp [hdone, confined_nil hn (.inr rfl)]

private theorem terminalRead_confined_iff {k k' : Kernel} {nbytes r : Int} {stored : List UInt8} (hn : 0 ≤ nbytes)
    (h : terminalRead k nbytes = some (k', r, stored)) : Confined nbytes r stored ↔ ReadFits k nbytes .terminal := by
  unfold ReadFits
  obtain ⟨-, ⟨hnone, -, rfl, rfl⟩ | ⟨count, hsome, hline, -, rfl, hroom, rfl⟩⟩ := terminalRead_cases h
  · have hfits : nbytes = 0 ∨ k.keyboard.keyboardBuffer 0 = newline ∨
        ∀ count, lineLength k.keyboard.keyboardBuffer = some count → (count : Int) < nbytes := by tauto
    exact ⟨fun _ => hfits, fun _ => confined_nil hn (.inr rfl)⟩
  · -- `how_many + 1` bytes are stored
    push Not at hsome
    simp only [Confined, hsome.1, hsome.2, hline, List.length_map, List.length_range, Option.some.injEq, forall_eq',
      false_or]
    omega

/-! ### The call -/

/-- A read of an open descriptor stays inside the caller's buffer exactly when what its handler would store fits. -/
theorem sysRead_confined_iff {k k' : Kernel} {fd nbytes r : Int} {buf : Nat → UInt8} {stored : List UInt8}
    (hfd : 0 ≤ fd ∧ fd < 8 ∧ fd ≠ 1) (hopen : (k.fdt (fdIndex fd)).exists_ = true)
    (hn : 0 ≤ nbytes ∧ nbytes < 2147483648) (h : sysRead k fd (some buf) nbytes = some (k', r, stored)) :
    Confined nbytes r stored ↔ ReadFits k nbytes (k.fdt (fdIndex fd)).fop_ := by
  have hrange : ¬(fd < 0 ∨ fd ≥ 8 ∨ fd = 1) := by omega
  simp only [sysRead, hrange, hopen, Bool.true_eq_false, if_false] at h
  cases hfop : (k.fdt (fdIndex fd)).fop_ with
  | null => simp [hfop, fopRead] at h
  | rtc =>
    simp only [hfop, fopRead, rtcRead, Option.some.injEq, Prod.mk.injEq] at h
    obtain ⟨-, rfl, rfl⟩ := h
    exact ⟨fun _ => trivial, fun _ => confined_nil hn.1 (.inr rfl)⟩
  | file =>
    simp only [hfop, fopRead, fileReadHelper, hopen, if_true, Option.some.injEq, Prod.mk.injEq] at h
    obtain ⟨-, rfl, rfl⟩ := h
    exact ⟨fun _ => trivial, fun _ => fileRead_confined _ _ _ hn.1 hn.2⟩
  | dir =>
    simp only [hfop, fopRead, Option.some.injEq, Prod.mk.injEq] at h
    obtain ⟨-, hread⟩ := h
    have hiff := dirRead_confined_iff (k := k) hn.1
    rw [hread] at hiff
    exact hiff
  | terminal =>
    simp only [hfop, fopRead] at h
    exact terminalRead_confined_iff hn.1 h

/-- The first shell, after the line `a` and Enter have been typed. -/
def typedLine : Kernel := (keyboardHandler (keyboardHandler firstShell 0x1E 0).1 0x1C 0).1

/-- A read of that line into a buffer with room to spare. -/
theorem typedLine_confined_iff :
    ∃ k' r stored, sysRead typedLine 0 (some fun _ => 0) 3 = some (k', r, stored) ∧
      (Confined 3 r stored ↔ ReadFits typedLine 3 (typedLine.fdt (fdIndex 0)).fop_) := by
  have hread : ((sysRead typedLine 0 (some fun _ => 0) 3).map fun x => x.2) = some (2, [0x61, 0x0A, 0]) := by
    decide +kernel
  obtain ⟨⟨k', r, stored⟩, h, -⟩ := Option.map_eq_some_iff.1 hread
  exact ⟨k', r, stored, h, sysRead_confined_iff (by decide) (by decide +kernel) (by decide) h⟩

/-- A read of exactly that line stores a third byte into a buffer of two. -/
theorem full_line_overruns_buffer :
    ∃ k', sysRead typedLine 0 (some fun _ => 0) 2 = some (k', 2, [0x61, 0x0A, 0]) ∧ ¬Confined 2 2 [0x61, 0x0A, 0] := by
  have hread : ((sysRead typedLine 0 (some fun _ => 0) 2).map fun x => x.2) = some (2, [0x61, 0x0A, 0]) := by
    decide +kernel
  obtain ⟨⟨k', r, stored⟩, h, heq⟩ := Option.map_eq_some_iff.1 hread
  cases heq
  refine ⟨k', h, ?_⟩
  rintro ⟨hlen, -⟩
  exact absurd hlen (by decide)

end BigChungOS
