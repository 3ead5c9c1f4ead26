import BigChungOS.Lib.Memory
import BigChungOS.Lib.X86

/-!
# String instructions

The part of the 32-bit machine that block routines are written for: moves of single bytes, arithmetic on the counters,
the jumps that test for zero and for below, and the string instructions with `rep`, which go up or down by the direction
flag.  All segments are the same flat one.

A stretch without jumps is one step (`leads_ops`), and so is a repeated string instruction (`leads_rep`).  The memory is
compared with blocks of bytes through `bytes`, the memory as a function of the addresses: a repeated `movsb` copies byte
by byte, up or down (`bytes_movsb_up`, `bytes_movsb_down`), and a `movsl` moves a block of four bytes at once
(`bytes_storeWord_loadWord`).
-/

namespace X86Block

open Memory Transition
open X86 (Reg loadWord storeWord)

/-- The registers, the memory, the flags for zero, carry and direction, and two segment registers. -/
structure Cpu where
  regs : Reg → BitVec 32
  mem : BitVec 32 → BitVec 8
  zf : Bool
  cf : Bool
  df : Bool
  ds : BitVec 16
  es : BitVec 16

/-- The source of an instruction: a constant or a register. -/
inductive Operand
  | imm (v : BitVec 32)
  | reg (r : Reg)

/-- The instructions that go on to the next one, with their operands in the order of the source: the destination comes
last.  `movbTo` and `movbFrom` move the byte `%al` to and from the address in a register. -/
inductive Op
  | testl (s : Operand) (r : Reg)
  | cmpl (s : Operand) (r : Reg)
  | movl (s : Operand) (r : Reg)
  | addl (s : Operand) (r : Reg)
  | subl (s : Operand) (r : Reg)
  | andl (s : Operand) (r : Reg)
  | shrl (k : Nat) (r : Reg)
  | leal (disp : BitVec 32) (base index r : Reg)
  | movbTo (r : Reg)
  | movbFrom (r : Reg)
  | movwFromDs (r : Reg)
  | movwToEs (r : Reg)
  | cld
  | std

/-- The string instructions. -/
inductive StringOp
  | stosl
  | movsl
  | movsb

inductive Instr (Label : Type*)
  | op (o : Op)
  | rep (o : StringOp)
  | jz (target : Label)
  | jae (target : Label)
  | jmp (target : Label)

/-! ### What the instructions do -/

namespace Cpu

def value (c : Cpu) : Operand → BitVec 32
  | .imm v => v
  | .reg r => c.regs r

/-- Write a register. -/
def set (c : Cpu) (r : Reg) (v : BitVec 32) : Cpu := { c with regs := Function.update c.regs r v }

@[simp] theorem set_self (c : Cpu) (r : Reg) (v : BitVec 32) : (c.set r v).regs r = v := Function.update_self _ _ _

theorem set_of_ne {c : Cpu} {r r' : Reg} {v : BitVec 32} (h : r' ≠ r) : (c.set r v).regs r' = c.regs r' :=
  Function.update_of_ne h _ _

/-- The result of a logical operation sets the flags. -/
def logic (c : Cpu) (v : BitVec 32) : Cpu := { c with zf := v == 0, cf := false }

def exec (c : Cpu) : Op → Cpu
  | .testl s r => c.logic (c.regs r &&& c.value s)
  | .cmpl s r => { c with zf := c.regs r == c.value s, cf := (c.regs r).ult (c.value s) }
  | .movl s r => c.set r (c.value s)
  | .addl s r =>
    let v := c.regs r + c.value s
    { c.set r v with zf := v == 0, cf := v.ult (c.regs r) }
  | .subl s r =>
    let v := c.regs r - c.value s
    { c.set r v with zf := v == 0, cf := (c.regs r).ult (c.value s) }
  | .andl s r =>
    let v := c.regs r &&& c.value s
    (c.set r v).logic v
  | .shrl k r =>
    let v := c.regs r >>> k
    { c.set r v with zf := v == 0, cf := (c.regs r).getLsbD (k - 1) }
  | .leal disp base index r => c.set r (c.regs base + c.regs index + disp)
  | .movbTo r => { c with mem := Function.update c.mem (c.regs r) ((c.regs .eax).extractLsb' 0 8) }
  | .movbFrom r => c.set .eax ((c.regs .eax).extractLsb' 8 24 ++ c.mem (c.regs r))
  | .movwFromDs r => c.set r ((c.regs r).extractLsb' 16 16 ++ c.ds)
  | .movwToEs r => { c with es := (c.regs r).extractLsb' 0 16 }
  | .cld => { c with df := false }
  | .std => { c with df := true }

/-- The pointer after a string instruction on `n` bytes. -/
def advance (c : Cpu) (r : Reg) (n : BitVec 32) : BitVec 32 := if c.df then c.regs r - n else c.regs r + n

theorem advance_up {c : Cpu} (hdf : c.df = false) (r : Reg) (n : BitVec 32) : c.advance r n = c.regs r + n := by
  rw [advance, hdf, if_neg Bool.false_ne_true]

theorem advance_down {c : Cpu} (hdf : c.df = true) (r : Reg) (n : BitVec 32) : c.advance r n = c.regs r - n := by
  rw [advance, hdf, if_pos rfl]

/-- A string instruction, without the count of `rep`. -/
def string (c : Cpu) : StringOp → Cpu
  | .stosl => { c.set .edi (c.advance .edi 4) with mem := storeWord c.mem (c.regs .edi) (c.regs .eax) }
  | .movsl =>
    { (c.set .edi (c.advance .edi 4)).set .esi (c.advance .esi 4) with
      mem := storeWord c.mem (c.regs .edi) (loadWord c.mem (c.regs .esi)) }
  | .movsb =>
    { (c.set .edi (c.advance .edi 1)).set .esi (c.advance .esi 1) with
      mem := Function.update c.mem (c.regs .edi) (c.mem (c.regs .esi)) }

end Cpu

/-! ### Runs -/

/-- A processor with the instructions that follow. -/
structure Config (Label : Type*) where
  cpu : Cpu
  code : List (Instr Label)

section Run

variable {Label : Type*} {text : Label → List (Instr Label)}

/-- One instruction, or one repetition of it; `text` is what follows each label.  At the end the state stays. -/
def step (text : Label → List (Instr Label)) (c : Config Label) : Config Label :=
  match c.code with
  | [] => c
  | .op o :: rest => ⟨c.cpu.exec o, rest⟩
  | .rep o :: rest =>
    if c.cpu.regs .ecx = 0 then ⟨c.cpu, rest⟩
    else ⟨(c.cpu.string o).set .ecx (c.cpu.regs .ecx - 1), .rep o :: rest⟩
  | .jz target :: rest => ⟨c.cpu, if c.cpu.zf then text target else rest⟩
  | .jae target :: rest => ⟨c.cpu, if c.cpu.cf then rest else text target⟩
  | .jmp target :: _ => ⟨c.cpu, text target⟩

/-- The routine comes to its end in the state `c'`. -/
def Returns (text : Label → List (Instr Label)) (c : Config Label) (c' : Cpu) : Prop := Leads (step text) c ⟨c', []⟩

theorem Returns.of_leads {c c' : Config Label} {cpu : Cpu} (h : Leads (step text) c c') (h' : Returns text c' cpu) :
    Returns text c cpu := h.trans h'

theorem leads_ops (c : Cpu) (os : List Op) (code : List (Instr Label)) :
    Leads (step text) ⟨c, os.map .op ++ code⟩ ⟨os.foldl Cpu.exec c, code⟩ := by
  induction os generalizing c with
  | nil => exact .refl _
  | cons o os ih => exact .head (ih (c.exec o))

theorem leads_jae (c : Cpu) (target : Label) (code : List (Instr Label)) :
    Leads (step text) ⟨c, .jae target :: code⟩ ⟨c, if c.cf then code else text target⟩ := ⟨1, rfl⟩

/-- A register is tested for some bits, and none of them being set is a jump. -/
theorem leads_testl_jz (c : Cpu) (s : Operand) (r : Reg) (target : Label) (code : List (Instr Label)) :
    Leads (step text) ⟨c, .op (.testl s r) :: .jz target :: code⟩
      ⟨c.logic (c.regs r &&& c.value s), if c.regs r &&& c.value s = 0 then text target else code⟩ := by
  refine ⟨2, ?_⟩
  simp [step, Cpu.exec, Cpu.logic]

/-- A counter that is zero. -/
theorem leads_counter_zero {c : Cpu} {r : Reg} (hzero : c.regs r = 0) (target : Label)
    (code : List (Instr Label)) :
    Leads (step text) ⟨c, .op (.testl (.reg r) r) :: .jz target :: code⟩ ⟨c.logic (c.regs r), text target⟩ := by
  have htest : Leads (step text) _ _ := leads_testl_jz c (.reg r) r target code
  rwa [Cpu.value, BitVec.and_self, if_pos hzero] at htest

/-- A counter that is not zero. -/
theorem leads_counter_succ {c : Cpu} {r : Reg} {n : Nat} (hcount : c.regs r = BitVec.ofNat 32 (n + 1))
    (hn : n + 1 < 4294967296) (target : Label) (code : List (Instr Label)) :
    Leads (step text) ⟨c, .op (.testl (.reg r) r) :: .jz target :: code⟩ ⟨c.logic (c.regs r), code⟩ := by
  have hmore : c.regs r ≠ 0 := by
    rw [hcount]
    bv_omega
  have htest : Leads (step text) _ _ := leads_testl_jz c (.reg r) r target code
  rwa [Cpu.value, BitVec.and_self, if_neg hmore] at htest

/-- A string instruction with its count. -/
def Cpu.counted (o : StringOp) (c : Cpu) : Cpu := (c.string o).set .ecx (c.regs .ecx - 1)

/-- It moves its pointers and nothing else among the registers. -/
theorem Cpu.string_of_ne (c : Cpu) (o : StringOp) {r : Reg} (hedi : r ≠ .edi) (hesi : r ≠ .esi) :
    (c.string o).regs r = c.regs r := by
  cases o <;> simp [Cpu.string, Cpu.set, hedi, hesi]

theorem Cpu.counted_df (o : StringOp) (c : Cpu) : (c.counted o).df = c.df := by
  cases o <;> rfl

/-- The instruction is repeated as often as `ecx` says. -/
theorem leads_rep (o : StringOp) (code : List (Instr Label)) {n : Nat} {c : Cpu}
    (hecx : c.regs .ecx = BitVec.ofNat 32 n) (hn : n < 4294967296) :
    Leads (step text) ⟨c, .rep o :: code⟩ ⟨(Cpu.counted o)^[n] c, code⟩ := by
  induction n generalizing c with
  | zero =>
    have hend : step text ⟨c, .rep o :: code⟩ = ⟨c, code⟩ := if_pos hecx
    refine .head ?_
    rw [hend]
    exact .refl _
  | succ n ih =>
    have hmore : c.regs .ecx ≠ 0 := by
      rw [hecx]
      bv_omega
    have hround : step text ⟨c, .rep o :: code⟩ = ⟨c.counted o, .rep o :: code⟩ := if_neg hmore
    have hcount : (c.counted o).regs .ecx = BitVec.ofNat 32 n := by
      rw [Cpu.counted, Cpu.set_self, hecx]
      bv_omega
    refine .head ?_
    rw [hround]
    exact ih hcount (by omega)

end Run

/-! ### The memory as blocks of bytes -/

/-- The memory as a function of the addresses. -/
def bytes (mem : BitVec 32 → BitVec 8) : Nat → UInt8 :=
  fun a => if a < 4294967296 then UInt8.ofBitVec (mem (BitVec.ofNat 32 a)) else 0

section Bytes

variable (mem : BitVec 32 → BitVec 8) {a d s : Nat}

theorem bytes_of_lt (ha : a < 4294967296) : bytes mem a = UInt8.ofBitVec (mem (BitVec.ofNat 32 a)) := if_pos ha

theorem bytes_update (ha : a < 4294967296) (b : BitVec 8) :
    bytes (Function.update mem (BitVec.ofNat 32 a) b) = Function.update (bytes mem) a (UInt8.ofBitVec b) := by
  funext x
  by_cases hx : x < 4294967296
  · rw [bytes_of_lt _ hx]
    by_cases heq : x = a
    · rw [heq, Function.update_self, Function.update_self]
    · have hne : BitVec.ofNat 32 x ≠ BitVec.ofNat 32 a := by
        intro h
        have hnat := congrArg BitVec.toNat h
        rw [BitVec.toNat_ofNat, BitVec.toNat_ofNat] at hnat
        omega
      rw [Function.update_of_ne hne, Function.update_of_ne heq, bytes_of_lt _ hx]
  · have hne : x ≠ a := by omega
    rw [Function.update_of_ne hne, bytes, bytes, if_neg hx, if_neg hx]

/-- A word is stored as four bytes. -/
theorem bytes_storeWord (ha : a + 4 ≤ 4294967296) (w : BitVec 32) (x : Nat) :
    bytes (storeWord mem (BitVec.ofNat 32 a) w) x =
      if a ≤ x ∧ x < a + 4 then UInt8.ofBitVec (w.extractLsb' (8 * (x - a)) 8) else bytes mem x := by
  by_cases hx : x < 4294967296
  · rw [bytes_of_lt _ hx, bytes_of_lt _ hx, storeWord]
    by_cases hin : a ≤ x ∧ x < a + 4
    · have hoff : (BitVec.ofNat 32 x - BitVec.ofNat 32 a).toNat = x - a := by bv_omega
      rw [if_pos hin, hoff, if_pos (by omega)]
    · rw [if_neg hin, if_neg (by bv_omega)]
  · rw [if_neg (by omega), bytes, bytes, if_neg hx, if_neg hx]

/-- Byte `i` of a word in memory. -/
theorem extract_loadWord (p : BitVec 32) {i : Nat} (hi : i < 4) :
    (loadWord mem p).extractLsb' (8 * i) 8 = mem (p + BitVec.ofNat 32 i) := by
  have hbits : ∀ j < 8, (loadWord mem p).getLsbD (8 * i + j) = (mem (p + BitVec.ofNat 32 i)).getLsbD j := by
    intro j hj
    rcases (by omega : i = 0 ∨ i = 1 ∨ i = 2 ∨ i = 3) with rfl | rfl | rfl | rfl <;>
      simp [loadWord] <;> grind
  refine BitVec.eq_of_getLsbD_eq fun j hj => ?_
  simp [hbits j hj, hj]

/-- A word that is loaded and stored is a block of four bytes. -/
theorem bytes_storeWord_loadWord (hd : d + 4 ≤ 4294967296) (hs : s + 4 ≤ 4294967296) :
    bytes (storeWord mem (BitVec.ofNat 32 d) (loadWord mem (BitVec.ofNat 32 s))) = blit (bytes mem) d s 4 := by
  funext x
  rw [bytes_storeWord mem hd, blit]
  by_cases hin : d ≤ x ∧ x < d + 4
  · have haddr : BitVec.ofNat 32 s + BitVec.ofNat 32 (x - d) = BitVec.ofNat 32 (s + (x - d)) := by bv_omega
    rw [if_pos hin, if_pos hin, extract_loadWord mem _ (by omega), haddr, bytes_of_lt mem (by omega)]
  · rw [if_neg hin, if_neg hin]

/-- A word of four equal bytes. -/
theorem bytes_storeWord_fill (ha : a + 4 ≤ 4294967296) {w : BitVec 32} {b : BitVec 8}
    (hw : ∀ i < 4, w.extractLsb' (8 * i) 8 = b) :
    bytes (storeWord mem (BitVec.ofNat 32 a) w) = fill (bytes mem) a 4 (UInt8.ofBitVec b) := by
  funext x
  rw [bytes_storeWord mem ha, fill]
  by_cases hin : a ≤ x ∧ x < a + 4
  · rw [if_pos hin, if_pos hin, hw _ (by omega)]
  · rw [if_neg hin, if_neg hin]

end Bytes

/-! ### Repeated moves of bytes -/

section Movsb

variable {n d s : Nat} {c : Cpu}

/-- The fields of the processor after one `movsb`. -/
theorem counted_movsb (c : Cpu) :
    (c.counted .movsb).regs .edi = c.advance .edi 1 ∧ (c.counted .movsb).regs .esi = c.advance .esi 1 ∧
      (c.counted .movsb).df = c.df ∧
      (c.counted .movsb).mem = Function.update c.mem (c.regs .edi) (c.mem (c.regs .esi)) := by
  simp [Cpu.counted, Cpu.string, Cpu.set]

theorem bytes_counted_movsb (hdi : c.regs .edi = BitVec.ofNat 32 d) (hsi : c.regs .esi = BitVec.ofNat 32 s)
    (hd : d < 4294967296) (hs : s < 4294967296) :
    bytes (c.counted .movsb).mem = Function.update (bytes c.mem) d (bytes c.mem s) := by
  rw [(counted_movsb c).2.2.2, hdi, hsi, bytes_update _ hd, bytes_of_lt _ hs]

/-- Upwards, from the first byte on. -/
theorem bytes_movsb_up (hdf : c.df = false) (hdi : c.regs .edi = BitVec.ofNat 32 d)
    (hsi : c.regs .esi = BitVec.ofNat 32 s) (hd : d + n ≤ 4294967296) (hs : s + n ≤ 4294967296) :
    bytes ((Cpu.counted .movsb)^[n] c).mem = copyUp (bytes c.mem) d s n := by
  induction n generalizing c d s with
  | zero => rfl
  | succ n ih =>
    obtain ⟨hedi, hesi, hdir, -⟩ := counted_movsb c
    rw [Cpu.advance_up hdf, hdi] at hedi
    rw [Cpu.advance_up hdf, hsi] at hesi
    have hdi' : (c.counted .movsb).regs .edi = BitVec.ofNat 32 (d + 1) := hedi.trans (by bv_omega)
    have hsi' : (c.counted .movsb).regs .esi = BitVec.ofNat 32 (s + 1) := hesi.trans (by bv_omega)
    rw [Function.iterate_succ_apply, ih (hdir.trans hdf) hdi' hsi' (by omega) (by omega),
      bytes_counted_movsb hdi hsi (by omega) (by omega)]
    rfl

/-- Downwards, from the last byte on. -/
theorem bytes_movsb_down (hdf : c.df = true) (hdi : c.regs .edi = BitVec.ofNat 32 (d + n) - 1)
    (hsi : c.regs .esi = BitVec.ofNat 32 (s + n) - 1) (hd : d + n ≤ 4294967296) (hs : s + n ≤ 4294967296) :
    bytes ((Cpu.counted .movsb)^[n] c).mem = copyDown (bytes c.mem) d s n := by
  induction n generalizing c with
  | zero => rfl
  | succ n ih =>
    obtain ⟨hedi, hesi, hdir, -⟩ := counted_movsb c
    have hdn : c.regs .edi = BitVec.ofNat 32 (d + n) := hdi.trans (by bv_omega)
    have hsn : c.regs .esi = BitVec.ofNat 32 (s + n) := hsi.trans (by bv_omega)
    rw [Cpu.advance_down hdf, hdn] at hedi
    rw [Cpu.advance_down hdf, hsn] at hesi
    rw [Function.iterate_succ_apply, ih (hdir.trans hdf) hedi hesi (by omega) (by omega),
      bytes_counted_movsb hdn hsn (by omega) (by omega)]
    rfl

end Movsb

end X86Block
