import BigChungOS.Lib.X86Block
import BigChungOS.Screen

/-!
# Block memory routines

`memset` and `memcpy` go byte by byte until the destination is aligned, then word by word, then byte by byte again for
what is left; they differ in the instructions for a byte and in the string instruction for a word (`blockText`).  What
the two loops and the string instruction between them need is that a byte and a word each bring the block on
(`Advances`), and then every length and alignment comes to the same block of bytes (`block_returns`).  `memmove` takes
the direction from the order of the addresses, so that it reads the source before it overwrites it (`memmove_returns`).
-/

namespace BigChungOS

open Memory Transition X86Block
open X86 (Reg)

/-! ### The routines -/

/-- The labels of `memset` and of `memcpy`. -/
inductive BlockLabel
  | top | aligned | bottom | done

section Text

variable (move : List Op) (words : StringOp)

/-- The loop over the bytes that are left. -/
def blockBottom : List (Instr BlockLabel) :=
  [.op (.testl (.reg .edx) .edx), .jz .done] ++
    (move.map .op ++ [.op (.subl (.imm 1) .edx), .jmp .bottom])

/-- The text of `memset` and `memcpy`: `move` is what they do for a byte, `words` the string instruction. -/
def blockText : BlockLabel → List (Instr BlockLabel)
  | .top =>
    [.op (.testl (.reg .ecx) .ecx), .jz .done, .op (.testl (.imm 3) .edi), .jz .aligned] ++
      (move.map .op ++ [.op (.subl (.imm 1) .ecx), .jmp .top])
  | .aligned =>
    [.movwFromDs .edx, .movwToEs .edx, .movl (.reg .ecx) .edx, .shrl 2 .ecx, .andl (.imm 3) .edx, .cld].map .op ++
      (.rep words :: blockBottom move)
  | .bottom => blockBottom move
  | .done => []

end Text

def memsetText : BlockLabel → List (Instr BlockLabel) := blockText [.movbTo .edi, .addl (.imm 1) .edi] .stosl

def memcpyText : BlockLabel → List (Instr BlockLabel) :=
  blockText [.movbFrom .esi, .movbTo .edi, .addl (.imm 1) .edi, .addl (.imm 1) .esi] .movsl

inductive MemmoveLabel
  | start | go

def memmoveText : MemmoveLabel → List (Instr MemmoveLabel)
  | .start =>
    [.op (.movwFromDs .edx), .op (.movwToEs .edx), .op .cld, .op (.cmpl (.reg .edi) .esi), .jae .go,
      .op (.leal (-1) .esi .ecx .esi), .op (.leal (-1) .edi .ecx .edi), .op .std, .rep .movsb]
  | .go => [.rep .movsb]

/-- `c & 0xFF`, in each of the four bytes. -/
def memsetWord (c : BitVec 32) : BitVec 32 :=
  let c := c &&& 0xFF
  c <<< 24 ||| c <<< 16 ||| c <<< 8 ||| c

/-- `memset(s, c, n)`, called with the processor as it is in `cpu`. -/
def memset (s c n : BitVec 32) (cpu : Cpu) : Config BlockLabel :=
  ⟨((cpu.set .eax (memsetWord c)).set .edi s).set .ecx n, memsetText .top⟩

/-- `memcpy(dest, src, n)`. -/
def memcpy (dest src n : BitVec 32) (cpu : Cpu) : Config BlockLabel :=
  ⟨((cpu.set .esi src).set .edi dest).set .ecx n, memcpyText .top⟩

/-- `memmove(dest, src, n)`. -/
def memmoveCall (dest src n : BitVec 32) (cpu : Cpu) : Config MemmoveLabel :=
  ⟨((cpu.set .edi dest).set .esi src).set .ecx n, memmoveText .start⟩

/-! ### The loops -/

/-- What the loops rely on, `P k` saying that `k` bytes have been done: it is about the pointers, `eax` and the memory,
and the instructions for a byte and the one for a word bring it on. -/
structure Advances (move : List Op) (words : StringOp) (n : Nat) (P : Nat → Cpu → Prop) : Prop where
  congr : ∀ {k c c'}, P k c → (∀ r ∈ [Reg.eax, .esi, .edi], c'.regs r = c.regs r) → c'.mem = c.mem → P k c'
  counters : ∀ c, ∀ r ∈ [Reg.ecx, .edx], (move.foldl Cpu.exec c).regs r = c.regs r
  byte : ∀ {k c}, P k c → k + 1 ≤ n → P (k + 1) (move.foldl Cpu.exec c)
  word : ∀ {k c}, P k c → k + 4 ≤ n → c.df = false → P (k + 4) (c.string words)

private theorem eq_ofNat (x : BitVec 32) : x = BitVec.ofNat 32 x.toNat := by simp

section Loops

variable {move : List Op} {words : StringOp} {n k m : Nat} {P : Nat → Cpu → Prop} {c : Cpu}

/-- A test changes the flags only. -/
theorem Advances.logic (h : Advances move words n P) (hP : P k c) (v : BitVec 32) : P k (c.logic v) :=
  h.congr hP (fun _ _ => rfl) rfl

/-- A byte, with its counter. -/
private theorem byte_round (h : Advances move words n P) (hP : P k c) (hk : k + 1 ≤ n) {r : Reg}
    (hr : r ∈ [Reg.ecx, .edx]) (hcount : c.regs r = BitVec.ofNat 32 (m + 1)) (target : BlockLabel) :
    ∃ c', Leads (step (blockText move words)) ⟨c, move.map .op ++ [.op (.subl (.imm 1) r), .jmp target]⟩
        ⟨c', blockText move words target⟩ ∧
      P (k + 1) c' ∧ c'.regs r = BitVec.ofNat 32 m := by
  let moved := move.foldl Cpu.exec c
  have hjump : Leads (step (blockText move words)) ⟨moved, [.op (.subl (.imm 1) r), .jmp target]⟩
      ⟨moved.exec (.subl (.imm 1) r), blockText move words target⟩ := ⟨2, rfl⟩
  refine ⟨moved.exec (.subl (.imm 1) r), (leads_ops c move _).trans hjump, ?_, ?_⟩
  · refine h.congr (h.byte hP hk) (fun r' hr' => Cpu.set_of_ne ?_) rfl
    rintro rfl
    simp only [List.mem_cons, List.not_mem_nil, or_false] at hr hr'
    grind
  · have hsub : (moved.exec (.subl (.imm 1) r)).regs r = moved.regs r - 1 := Cpu.set_self _ _ _
    rw [hsub, h.counters c r hr, hcount]
    bv_omega

private theorem bottom_returns (h : Advances move words n P) (hP : P k c) (hm : k + m = n) (hn : n < 4294967296)
    (hedx : c.regs .edx = BitVec.ofNat 32 m) :
    ∃ c', Returns (blockText move words) ⟨c, blockBottom move⟩ c' ∧ P n c' := by
  induction m generalizing k c with
  | zero =>
    obtain rfl : k = n := hm
    exact ⟨c.logic (c.regs .edx), leads_counter_zero hedx BlockLabel.done _, h.logic hP _⟩
  | succ m ih =>
    have htested : P k (c.logic (c.regs .edx)) := h.logic hP _
    obtain ⟨c₁, hbody, hP₁, hedx₁⟩ := byte_round h htested (by omega) (by simp) hedx .bottom
    obtain ⟨c', hrest, hP'⟩ := ih hP₁ (by omega) hedx₁
    exact ⟨c', .of_leads (leads_counter_succ hedx (by omega) BlockLabel.done _) (.of_leads hbody hrest), hP'⟩

/-- The words, repeated. -/
private theorem iterate_words (h : Advances move words n P) (hP : P k c) (hm : k + 4 * m ≤ n) (hdf : c.df = false) :
    P (k + 4 * m) ((Cpu.counted words)^[m] c) ∧ ((Cpu.counted words)^[m] c).regs .edx = c.regs .edx := by
  induction m generalizing k c with
  | zero => exact ⟨hP, rfl⟩
  | succ m ih =>
    have hword : P (k + 4) (c.counted words) := by
      refine h.congr (h.word hP (by omega) hdf) (fun r hr => Cpu.set_of_ne ?_) rfl
      rintro rfl
      simp at hr
    have hedx : (c.counted words).regs .edx = c.regs .edx :=
      (Cpu.set_of_ne (by decide)).trans (Cpu.string_of_ne c words (by decide) (by decide))
    obtain ⟨hP', hedx'⟩ := ih hword (by omega) ((Cpu.counted_df words c).trans hdf)
    have hplace : k + 4 + 4 * m = k + 4 * (m + 1) := by omega
    rw [hplace] at hP'
    exact ⟨hP', hedx'.trans hedx⟩

/-- From an aligned destination on. -/
private theorem aligned_returns (h : Advances move words n P) (hP : P k c) (hm : k + m = n) (hn : n < 4294967296)
    (hecx : c.regs .ecx = BitVec.ofNat 32 m) :
    ∃ c', Returns (blockText move words) ⟨c, blockText move words .aligned⟩ c' ∧ P n c' := by
  let os : List Op :=
    [.movwFromDs .edx, .movwToEs .edx, .movl (.reg .ecx) .edx, .shrl 2 .ecx, .andl (.imm 3) .edx, .cld]
  let split := os.foldl Cpu.exec c
  have hsplit : P k split := by
    refine h.congr hP (fun r hr => ?_) rfl
    fin_cases hr <;> rfl
  have hwords : split.regs .ecx = BitVec.ofNat 32 (m / 4) := by
    have hshift : split.regs .ecx = c.regs .ecx >>> 2 := rfl
    rw [hshift, hecx]
    refine BitVec.eq_of_toNat_eq ?_
    rw [BitVec.toNat_ushiftRight, BitVec.toNat_ofNat, BitVec.toNat_ofNat, Nat.shiftRight_eq_div_pow]
    omega
  have hbytes : split.regs .edx = BitVec.ofNat 32 (m % 4) := by
    have hmask : split.regs .edx = c.regs .ecx &&& 3 := rfl
    rw [hmask, hecx]
    refine BitVec.eq_of_toNat_eq ?_
    have hlow : m % 4294967296 &&& 3 = m % 4294967296 % 4 := Nat.and_two_pow_sub_one_eq_mod _ 2
    rw [BitVec.toNat_and, BitVec.toNat_ofNat, BitVec.toNat_ofNat]
    exact hlow.trans (by omega)
  obtain ⟨hP₁, hedx₁⟩ := iterate_words (m := m / 4) h hsplit (by omega) rfl
  obtain ⟨c', hrest, hP'⟩ := bottom_returns (m := m % 4) h hP₁ (by omega) hn (hedx₁.trans hbytes)
  exact ⟨c', .of_leads (leads_ops c os _) (.of_leads (leads_rep words _ hwords (by omega)) hrest), hP'⟩

/-- The block is done from every alignment of the destination and for every length. -/
theorem block_returns (h : Advances move words n P) (hP : P k c) (hm : k + m = n) (hn : n < 4294967296)
    (hecx : c.regs .ecx = BitVec.ofNat 32 m) :
    ∃ c', Returns (blockText move words) ⟨c, blockText move words .top⟩ c' ∧ P n c' := by
  induction m generalizing k c with
  | zero =>
    obtain rfl : k = n := hm
    exact ⟨c.logic (c.regs .ecx), leads_counter_zero hecx BlockLabel.done _, h.logic hP _⟩
  | succ m ih =>
    let counted := c.logic (c.regs .ecx)
    let tested := counted.logic (counted.regs .edi &&& 3)
    have htested : P k tested := h.logic (h.logic hP _) _
    have hstart : Leads (step (blockText move words)) ⟨c, blockText move words .top⟩
        ⟨tested, if counted.regs .edi &&& 3 = 0 then blockText move words .aligned
          else move.map .op ++ [.op (.subl (.imm 1) .ecx), .jmp .top]⟩ :=
      (leads_counter_succ hecx (by omega) BlockLabel.done _).trans
        (leads_testl_jz counted (.imm 3) .edi BlockLabel.aligned _)
    by_cases haligned : counted.regs .edi &&& 3 = 0
    · obtain ⟨c', hrest, hP'⟩ := aligned_returns (c := tested) h htested hm hn hecx
      rw [if_pos haligned] at hstart
      exact ⟨c', .of_leads hstart hrest, hP'⟩
    · obtain ⟨c₁, hbody, hP₁, hecx₁⟩ := byte_round (c := tested) h htested (by omega) (by simp) hecx .top
      obtain ⟨c', hrest, hP'⟩ := ih hP₁ (by omega) hecx₁
      rw [if_neg haligned] at hstart
      exact ⟨c', .of_leads hstart (.of_leads hbody hrest), hP'⟩

end Loops

/-! ### `memset` -/

section Memset

variable {m : Nat → UInt8} {s n : Nat} {w : BitVec 32} {b : BitVec 8}

/-- After `k` bytes of `memset`. -/
def MemsetDone (m : Nat → UInt8) (s : Nat) (w : BitVec 32) (b : BitVec 8) (k : Nat) (c : Cpu) : Prop :=
  c.regs .edi = BitVec.ofNat 32 (s + k) ∧ c.regs .eax = w ∧ bytes c.mem = fill m s k (UInt8.ofBitVec b)

private theorem memset_advances (hw : ∀ i < 4, w.extractLsb' (8 * i) 8 = b) (hn : s + n ≤ 4294967296) :
    Advances [.movbTo .edi, .addl (.imm 1) .edi] .stosl n (MemsetDone m s w b) where
  congr := by
    rintro k c c' ⟨hedi, heax, hmem⟩ hregs hsame
    refine ⟨?_, ?_, ?_⟩
    · rw [hregs .edi (by simp), hedi]
    · rw [hregs .eax (by simp), heax]
    · rw [hsame, hmem]
  counters := by
    intro c r hr
    fin_cases hr <;> rfl
  byte := by
    rintro k c ⟨hedi, heax, hmem⟩ hk
    let c' := [Op.movbTo .edi, .addl (.imm 1) .edi].foldl Cpu.exec c
    have hedi' : c'.regs .edi = c.regs .edi + 1 := rfl
    have heax' : c'.regs .eax = c.regs .eax := rfl
    have hstore : c'.mem = Function.update c.mem (c.regs .edi) ((c.regs .eax).extractLsb' 0 8) := rfl
    refine ⟨?_, heax'.trans heax, ?_⟩
    · rw [hedi', hedi]
      bv_omega
    · rw [hstore, hedi, heax, hw 0 (by omega), bytes_update _ (by omega), hmem, update_eq_fill, fill_append]
  word := by
    rintro k c ⟨hedi, heax, hmem⟩ hk hdf
    have hedi' : (c.string .stosl).regs .edi = c.regs .edi + 4 := Cpu.advance_up hdf .edi 4
    have heax' : (c.string .stosl).regs .eax = c.regs .eax := rfl
    have hstore : (c.string .stosl).mem = X86.storeWord c.mem (c.regs .edi) (c.regs .eax) := rfl
    refine ⟨?_, heax'.trans heax, ?_⟩
    · rw [hedi', hedi]
      bv_omega
    · rw [hstore, hedi, heax, bytes_storeWord_fill _ (by omega) hw, hmem, fill_append]

/-- Every byte of the word is the low byte of `c`. -/
private theorem extract_memsetWord (c : BitVec 32) {i : Nat} (hi : i < 4) :
    (memsetWord c).extractLsb' (8 * i) 8 = c.setWidth 8 := by
  have hmask : ∀ j, (0xFF : BitVec 32).getLsbD j = decide (j < 8) := by
    intro j
    have hlow : Nat.testBit 0xFF j = decide (j < 8) := Nat.testBit_two_pow_sub_one 8 j
    rw [BitVec.ofNat_eq_ofNat, BitVec.getLsbD_ofNat, hlow]
    grind
  have hbits : ∀ j < 8, (memsetWord c).getLsbD (8 * i + j) = c.getLsbD j := by
    intro j hj
    simp only [memsetWord, BitVec.getLsbD_or, BitVec.getLsbD_shiftLeft, BitVec.getLsbD_and, hmask]
    rcases (by omega : i = 0 ∨ i = 1 ∨ i = 2 ∨ i = 3) with rfl | rfl | rfl | rfl <;> grind
  refine BitVec.eq_of_getLsbD_eq fun j hj => ?_
  simp [hbits j hj, hj]

end Memset

/-- `memset` stores the low byte of `c` in the `n` bytes at `s`, and nothing else. -/
private theorem memset_returns (s c n : BitVec 32) (cpu : Cpu) (hn : s.toNat + n.toNat ≤ 4294967296) :
    ∃ cpu', Returns memsetText (memset s c n cpu) cpu' ∧
      bytes cpu'.mem = fill (bytes cpu.mem) s.toNat n.toNat (UInt8.ofBitVec (c.setWidth 8)) := by
  have hadvances := memset_advances (m := bytes cpu.mem) (fun i hi => extract_memsetWord c hi) hn
  have hstart : MemsetDone (bytes cpu.mem) s.toNat (memsetWord c) (c.setWidth 8) 0 (memset s c n cpu).cpu := by
    refine ⟨?_, rfl, (fill_zero _ _ _).symm⟩
    exact eq_ofNat s
  have hecx : (memset s c n cpu).cpu.regs .ecx = BitVec.ofNat 32 n.toNat := eq_ofNat n
  obtain ⟨cpu', hrun, -, -, hmem⟩ := block_returns hadvances hstart (Nat.zero_add _) n.isLt hecx
  exact ⟨cpu', hrun, hmem⟩

/-! ### `memcpy` -/

section Memcpy

variable {m : Nat → UInt8} {d s n : Nat}

/-- After `k` bytes of `memcpy`. -/
def MemcpyDone (m : Nat → UInt8) (d s k : Nat) (c : Cpu) : Prop :=
  c.regs .edi = BitVec.ofNat 32 (d + k) ∧ c.regs .esi = BitVec.ofNat 32 (s + k) ∧ bytes c.mem = blit m d s k

private theorem memcpy_advances (hd : d + n ≤ 4294967296) (hs : s + n ≤ 4294967296) (hapart : d + n ≤ s ∨ s + n ≤ d) :
    Advances [.movbFrom .esi, .movbTo .edi, .addl (.imm 1) .edi, .addl (.imm 1) .esi] .movsl n (MemcpyDone m d s) where
  congr := by
    rintro k c c' ⟨hedi, hesi, hmem⟩ hregs hsame
    refine ⟨?_, ?_, ?_⟩
    · rw [hregs .edi (by simp), hedi]
    · rw [hregs .esi (by simp), hesi]
    · rw [hsame, hmem]
  counters := by
    intro c r hr
    fin_cases hr <;> rfl
  byte := by
    rintro k c ⟨hedi, hesi, hmem⟩ hk
    let c' := [Op.movbFrom .esi, .movbTo .edi, .addl (.imm 1) .edi, .addl (.imm 1) .esi].foldl Cpu.exec c
    have hedi' : c'.regs .edi = c.regs .edi + 1 := rfl
    have hesi' : c'.regs .esi = c.regs .esi + 1 := rfl
    have hstore : c'.mem = Function.update c.mem (c.regs .edi) (c.mem (c.regs .esi)) :=
      congrArg (Function.update c.mem (c.regs .edi)) BitVec.extractLsb'_append_eq_right
    refine ⟨?_, ?_, ?_⟩
    · rw [hedi', hedi]
      bv_omega
    · rw [hesi', hesi]
      bv_omega
    · rw [hstore, hedi, hesi, bytes_update _ (by omega), ← bytes_of_lt _ (by omega), update_eq_blit, hmem,
        blit_append (by omega)]
  word := by
    rintro k c ⟨hedi, hesi, hmem⟩ hk hdf
    have hedi' : (c.string .movsl).regs .edi = c.regs .edi + 4 := Cpu.advance_up hdf .edi 4
    have hesi' : (c.string .movsl).regs .esi = c.regs .esi + 4 := Cpu.advance_up hdf .esi 4
    have hstore : (c.string .movsl).mem = X86.storeWord c.mem (c.regs .edi) (X86.loadWord c.mem (c.regs .esi)) := rfl
    refine ⟨?_, ?_, ?_⟩
    · rw [hedi', hedi]
      bv_omega
    · rw [hesi', hesi]
      bv_omega
    · rw [hstore, hedi, hesi, bytes_storeWord_loadWord _ (by omega) (by omega), hmem, blit_append (by omega)]

end Memcpy

/-- `memcpy` copies the `n` bytes if neither block has a byte of the other, and it changes nothing else. -/
private theorem memcpy_returns {dest src n : BitVec 32} (cpu : Cpu) (hd : dest.toNat + n.toNat ≤ 4294967296)
    (hs : src.toNat + n.toNat ≤ 4294967296)
    (hapart : dest.toNat + n.toNat ≤ src.toNat ∨ src.toNat + n.toNat ≤ dest.toNat) :
    ∃ cpu', Returns memcpyText (memcpy dest src n cpu) cpu' ∧
      bytes cpu'.mem = blit (bytes cpu.mem) dest.toNat src.toNat n.toNat := by
  have hadvances := memcpy_advances (m := bytes cpu.mem) hd hs hapart
  have hstart : MemcpyDone (bytes cpu.mem) dest.toNat src.toNat 0 (memcpy dest src n cpu).cpu := by
    refine ⟨?_, ?_, (blit_zero _ _ _).symm⟩
    · exact eq_ofNat dest
    · exact eq_ofNat src
  have hecx : (memcpy dest src n cpu).cpu.regs .ecx = BitVec.ofNat 32 n.toNat := eq_ofNat n
  obtain ⟨cpu', hrun, -, -, hmem⟩ := block_returns hadvances hstart (Nat.zero_add _) n.isLt hecx
  exact ⟨cpu', hrun, hmem⟩

/-- Addresses that are given as numbers. -/
private theorem memcpy_at {d s n : Nat} (cpu : Cpu) (hn : n < 4294967296) (hd : d + n ≤ 4294967295)
    (hs : s + n ≤ 4294967295) (hapart : d + n ≤ s ∨ s + n ≤ d) :
    ∃ cpu', Returns memcpyText (memcpy (.ofNat 32 d) (.ofNat 32 s) (.ofNat 32 n) cpu) cpu' ∧
      bytes cpu'.mem = blit (bytes cpu.mem) d s n := by
  have htoNat : ∀ x < 4294967296, (BitVec.ofNat 32 x).toNat = x := by
    intro x hx
    rw [BitVec.toNat_ofNat]
    exact Nat.mod_eq_of_lt hx
  have hdest := htoNat d (by omega)
  have hsrc := htoNat s (by omega)
  have hlength := htoNat n hn
  obtain ⟨cpu', hrun, hmem⟩ : ∃ cpu', Returns memcpyText (memcpy (.ofNat 32 d) (.ofNat 32 s) (.ofNat 32 n) cpu) cpu' ∧
      bytes cpu'.mem = _ := memcpy_returns cpu (by omega) (by omega) (by omega)
  rw [hdest, hsrc, hlength] at hmem
  exact ⟨cpu', hrun, hmem⟩

/-- The copies of a switch of the terminals: the page of a terminal and the main page are apart. -/
theorem memcpy_pages (t : Fin 3) (cpu : Cpu) :
    (∃ cpu', Returns memcpyText (memcpy (.ofNat 32 (termPage t)) (.ofNat 32 mainVideo) 4096 cpu) cpu' ∧
      bytes cpu'.mem = blit (bytes cpu.mem) (termPage t) mainVideo 4096) ∧
    ∃ cpu', Returns memcpyText (memcpy (.ofNat 32 mainVideo) (.ofNat 32 (termPage t)) 4096 cpu) cpu' ∧
      bytes cpu'.mem = blit (bytes cpu.mem) mainVideo (termPage t) 4096 := by
  have hpage : termPage t = 0xB9000 + 0x1000 * t.val := termPage_eq t
  have hmain : mainVideo = 0xB8000 := rfl
  exact ⟨memcpy_at (n := 4096) cpu (by omega) (by omega) (by omega) (by omega),
    memcpy_at (n := 4096) cpu (by omega) (by omega) (by omega) (by omega)⟩

/-! ### `memmove` -/

section Memmove

variable {dest src n : BitVec 32}

/-- After the comparison of the addresses. -/
def compared (dest src n : BitVec 32) (cpu : Cpu) : Cpu :=
  [Op.movwFromDs .edx, .movwToEs .edx, .cld, .cmpl (.reg .edi) .esi].foldl Cpu.exec (memmoveCall dest src n cpu).cpu

/-- What is done for the copy downwards, which begins at the last bytes. -/
def backwards : List Op := [.leal (-1) .esi .ecx .esi, .leal (-1) .edi .ecx .edi, .std]

private theorem memmove_compares (dest src n : BitVec 32) (cpu : Cpu) :
    Leads (step memmoveText) (memmoveCall dest src n cpu)
      ⟨compared dest src n cpu,
        if src.toNat < dest.toNat then backwards.map .op ++ [.rep .movsb] else [.rep .movsb]⟩ := by
  have hjae : Leads (step memmoveText) _ _ :=
    leads_jae (compared dest src n cpu) .go (backwards.map .op ++ [.rep .movsb])
  have hcf : (compared dest src n cpu).cf = decide (src.toNat < dest.toNat) := rfl
  rw [hcf] at hjae
  simp only [decide_eq_true_eq] at hjae
  exact (leads_ops (memmoveCall dest src n cpu).cpu [.movwFromDs .edx, .movwToEs .edx, .cld, .cmpl (.reg .edi) .esi]
    _).trans hjae

private theorem memmove_up (cpu : Cpu) (hd : dest.toNat + n.toNat ≤ 4294967296)
    (hs : src.toNat + n.toNat ≤ 4294967296) :
    ∃ cpu', Returns memmoveText ⟨compared dest src n cpu, [.rep .movsb]⟩ cpu' ∧
      bytes cpu'.mem = copyUp (bytes cpu.mem) dest.toNat src.toNat n.toNat := by
  have hecx : (compared dest src n cpu).regs .ecx = BitVec.ofNat 32 n.toNat := eq_ofNat n
  have hedi : (compared dest src n cpu).regs .edi = BitVec.ofNat 32 dest.toNat := eq_ofNat dest
  have hesi : (compared dest src n cpu).regs .esi = BitVec.ofNat 32 src.toNat := eq_ofNat src
  have hdf : (compared dest src n cpu).df = false := rfl
  refine ⟨_, leads_rep .movsb [] hecx n.isLt, ?_⟩
  rw [bytes_movsb_up hdf hedi hesi hd hs]
  rfl

private theorem memmove_down (cpu : Cpu) (hd : dest.toNat + n.toNat ≤ 4294967296)
    (hs : src.toNat + n.toNat ≤ 4294967296) :
    ∃ cpu', Returns memmoveText ⟨compared dest src n cpu, backwards.map .op ++ [.rep .movsb]⟩ cpu' ∧
      bytes cpu'.mem = copyDown (bytes cpu.mem) dest.toNat src.toNat n.toNat := by
  let last := backwards.foldl Cpu.exec (compared dest src n cpu)
  have hecx : last.regs .ecx = BitVec.ofNat 32 n.toNat := eq_ofNat n
  have hedi : last.regs .edi = BitVec.ofNat 32 (dest.toNat + n.toNat) - 1 := by
    have hlast : last.regs .edi = dest + n + -1 := rfl
    rw [hlast]
    bv_omega
  have hesi : last.regs .esi = BitVec.ofNat 32 (src.toNat + n.toNat) - 1 := by
    have hlast : last.regs .esi = src + n + -1 := rfl
    rw [hlast]
    bv_omega
  have hdf : last.df = true := rfl
  refine ⟨_, .of_leads (leads_ops _ backwards _) (leads_rep .movsb [] hecx n.isLt), ?_⟩
  rw [bytes_movsb_down hdf hedi hesi hd hs]
  rfl

/-- `memmove` is the copy in the direction that the order of the addresses gives. -/
theorem memmove_returns (cpu : Cpu) (hd : dest.toNat + n.toNat ≤ 4294967296) (hs : src.toNat + n.toNat ≤ 4294967296) :
    ∃ cpu', Returns memmoveText (memmoveCall dest src n cpu) cpu' ∧
      bytes cpu'.mem = memmove (bytes cpu.mem) dest.toNat src.toNat n.toNat := by
  have hstart := memmove_compares dest src n cpu
  unfold memmove
  by_cases hup : dest.toNat ≤ src.toNat
  · rw [if_neg (Nat.not_lt.2 hup)] at hstart
    rw [if_pos hup]
    obtain ⟨cpu', hrun, hmem⟩ := memmove_up cpu hd hs
    exact ⟨cpu', .of_leads hstart hrun, hmem⟩
  · rw [if_pos (Nat.not_le.1 hup)] at hstart
    rw [if_neg hup]
    obtain ⟨cpu', hrun, hmem⟩ := memmove_down cpu hd hs
    exact ⟨cpu', .of_leads hstart hrun, hmem⟩

end Memmove

/-! ### All three -/

/-- The block routines are what they are byte by byte, for all addresses and lengths without wrap-around, and whatever
is in the other registers and in the flags: `memset` sets the block to the low byte of `c`, `memcpy` copies a block that
is apart from its destination, `memmove` any block. -/
theorem block_routines_bytewise (cpu : Cpu) :
    (∀ s c n : BitVec 32, s.toNat + n.toNat ≤ 4294967296 →
      ∃ cpu', Returns memsetText (memset s c n cpu) cpu' ∧
        bytes cpu'.mem = fill (bytes cpu.mem) s.toNat n.toNat (UInt8.ofBitVec (c.setWidth 8))) ∧
    (∀ dest src n : BitVec 32, dest.toNat + n.toNat ≤ 4294967296 → src.toNat + n.toNat ≤ 4294967296 →
      dest.toNat + n.toNat ≤ src.toNat ∨ src.toNat + n.toNat ≤ dest.toNat →
      ∃ cpu', Returns memcpyText (memcpy dest src n cpu) cpu' ∧
        bytes cpu'.mem = blit (bytes cpu.mem) dest.toNat src.toNat n.toNat) ∧
    (∀ dest src n : BitVec 32, dest.toNat + n.toNat ≤ 4294967296 → src.toNat + n.toNat ≤ 4294967296 →
      ∃ cpu', Returns memmoveText (memmoveCall dest src n cpu) cpu' ∧
        bytes cpu'.mem = blit (bytes cpu.mem) dest.toNat src.toNat n.toNat) := by
  refine ⟨fun s c n => memset_returns s c n cpu, fun dest src n => memcpy_returns cpu, ?_⟩
  intro dest src n hd hs
  obtain ⟨cpu', hrun, hmem⟩ := memmove_returns cpu hd hs
  exact ⟨cpu', hrun, hmem.trans (memmove_eq_blit _ _ _ _)⟩

/-- A processor with the direction flag set, whose memory has at each address the low byte of it. -/
def countingCpu : Cpu := ⟨fun _ => 0, fun a => a.setWidth 8, false, false, true, 0x18, 0x18⟩

theorem block_routines_counting :
    (∃ cpu', Returns memsetText (memset 0x1003 0x141 7 countingCpu) cpu' ∧
      [0x1002, 0x1003, 0x1009, 0x100A].map (bytes cpu'.mem) = [0x02, 0x41, 0x41, 0x0A]) ∧
    (∃ cpu', Returns memcpyText (memcpy 0x2002 0x1001 9 countingCpu) cpu' ∧
      [0x2001, 0x2002, 0x200A, 0x200B].map (bytes cpu'.mem) = [0x01, 0x01, 0x09, 0x0B]) ∧
    (∃ cpu', Returns memmoveText (memmoveCall 0x1002 0x1000 5 countingCpu) cpu' ∧
      [0x1001, 0x1002, 0x1004, 0x1006, 0x1007].map (bytes cpu'.mem) = [0x01, 0x00, 0x02, 0x04, 0x07]) := by
  obtain ⟨hset, hcpy, hmove⟩ := block_routines_bytewise countingCpu
  obtain ⟨c₁, hrun₁, hmem₁⟩ := hset 0x1003 0x141 7 (by decide)
  obtain ⟨c₂, hrun₂, hmem₂⟩ := hcpy 0x2002 0x1001 9 (by decide) (by decide) (by decide)
  obtain ⟨c₃, hrun₃, hmem₃⟩ := hmove 0x1002 0x1000 5 (by decide) (by decide)
  refine ⟨⟨c₁, hrun₁, ?_⟩, ⟨c₂, hrun₂, ?_⟩, ⟨c₃, hrun₃, ?_⟩⟩
  · rw [hmem₁]
    decide
  · rw [hmem₂]
    decide
  · rw [hmem₃]
    decide

end BigChungOS
