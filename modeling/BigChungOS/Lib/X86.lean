import BigChungOS.Lib.Runs
import Mathlib.Data.List.Basic

/-!
# A machine with a stack

The 32-bit machine that short assembly routines are written for: eight registers, a memory of bytes, and the flags that
signed comparisons read.  A routine is a list of instructions for each label, and a call through a table of pointers is
a step, what is called being a function of the machine (`Code.callee`).

The stack is described from the top on: `m.Stack ws` says that the words `ws` are there.  A push puts a word in front
(`Stack.push`), a pop takes it off (`Stack.pop`), and a routine that follows the calling convention (`Cdecl`) leaves
what is above its arguments (`Stack.call`).  Runs of pushes and of pops are one step each (`reaches_pushes`,
`reaches_pops`), and a run that comes to `iret` comes to one state only (`Ends.unique`).
-/

namespace X86

/-! ### Words in memory -/

/-- The word at an address, its lowest byte first. -/
def loadWord (mem : BitVec 32 → BitVec 8) (a : BitVec 32) : BitVec 32 :=
  mem (a + 3) ++ mem (a + 2) ++ mem (a + 1) ++ mem a

def storeWord (mem : BitVec 32 → BitVec 8) (a w : BitVec 32) : BitVec 32 → BitVec 8 :=
  fun x => if (x - a).toNat < 4 then w.extractLsb' (8 * (x - a).toNat) 8 else mem x

theorem loadWord_storeWord (mem : BitVec 32 → BitVec 8) (a w : BitVec 32) : loadWord (storeWord mem a w) a = w := by
  have h1 : (a + 1 - a).toNat = 1 := by bv_omega
  have h2 : (a + 2 - a).toNat = 2 := by bv_omega
  have h3 : (a + 3 - a).toNat = 3 := by bv_omega
  simp only [loadWord, storeWord, h1, h2, h3, BitVec.sub_self]
  refine BitVec.eq_of_getLsbD_eq fun i hi => ?_
  simp only [Nat.mul_one, Nat.reduceMul]
  grind

theorem loadWord_storeWord_of_apart (mem : BitVec 32 → BitVec 8) {a b : BitVec 32} (w : BitVec 32)
    (h : 4 ≤ (b - a).toNat) (h' : 4 ≤ (a - b).toNat) : loadWord (storeWord mem a w) b = loadWord mem b := by
  have h0 : ¬(b - a).toNat < 4 := by omega
  have h1 : ¬(b + 1 - a).toNat < 4 := by bv_omega
  have h2 : ¬(b + 2 - a).toNat < 4 := by bv_omega
  have h3 : ¬(b + 3 - a).toNat < 4 := by bv_omega
  simp only [loadWord, storeWord, h0, h1, h2, h3, if_false]

/-! ### The machine -/

inductive Reg
  | eax | ebx | ecx | edx | esi | edi | ebp | esp
  deriving DecidableEq

/-- The flags of the signed comparisons. -/
structure Flags where
  sf : Bool
  zf : Bool
  of : Bool

/-- The flags after `x - y`. -/
def Flags.ofSub (x y : BitVec 32) : Flags :=
  ⟨(x - y).msb, x == y, (x.msb != y.msb) && ((x - y).msb != x.msb)⟩

/-- The test of `jl`. -/
def Flags.less (f : Flags) : Bool := f.sf != f.of

/-- The test of `jg`. -/
def Flags.greater (f : Flags) : Bool := !f.zf && f.sf == f.of

theorem Flags.less_ofSub (x y : BitVec 32) : (Flags.ofSub x y).less = x.slt y := by
  unfold Flags.less Flags.ofSub
  dsimp only
  rw [BitVec.slt_eq_ult, BitVec.ult, BitVec.msb_eq_decide, BitVec.msb_eq_decide, BitVec.msb_eq_decide,
    BitVec.toNat_sub]
  have hx := x.isLt
  have hy := y.isLt
  generalize x.toNat = a at *
  generalize y.toNat = b at *
  grind

theorem Flags.greater_eq (f : Flags) : f.greater = (!f.zf && !f.less) := by
  unfold Flags.greater Flags.less
  cases f.zf <;> cases f.sf <;> cases f.of <;> rfl

theorem Flags.greater_ofSub (x y : BitVec 32) : (Flags.ofSub x y).greater = y.slt x := by
  rw [Flags.greater_eq, Flags.less_ofSub]
  show (!(x == y) && !x.slt y) = y.slt x
  by_cases heq : x = y
  · simp [heq, BitVec.slt]
  · have hne : x.toInt ≠ y.toInt := fun h => heq (BitVec.eq_of_toInt_eq h)
    have hbeq : (x == y) = false := beq_eq_false_iff_ne.2 heq
    rw [hbeq, BitVec.slt, BitVec.slt]
    grind

structure Machine where
  regs : Reg → BitVec 32
  mem : BitVec 32 → BitVec 8
  flags : Flags

namespace Machine

/-- Write a register. -/
def set (m : Machine) (r : Reg) (v : BitVec 32) : Machine := { m with regs := Function.update m.regs r v }

/-- Set the flags by `x - y`. -/
def compare (m : Machine) (x y : BitVec 32) : Machine := { m with flags := Flags.ofSub x y }

/-- Word `i` of the stack, counted from its top. -/
def word (m : Machine) (i : Nat) : BitVec 32 := loadWord m.mem (m.regs .esp + 4 * BitVec.ofNat 32 i)

def push (m : Machine) (v : BitVec 32) : Machine :=
  { m.set .esp (m.regs .esp - 4) with mem := storeWord m.mem (m.regs .esp - 4) v }

def pop (m : Machine) (r : Reg) : Machine := (m.set .esp (m.regs .esp + 4)).set r (m.word 0)

/-! ### The stack -/

/-- The words `ws` are on the stack, from its top on. -/
def Stack (m : Machine) (ws : List (BitVec 32)) : Prop := ∀ i w, ws[i]? = some w → m.word i = w

/-- Push the registers `rs`, the first one first. -/
def pushes (m : Machine) (rs : List Reg) : Machine := rs.foldl (fun m r => m.push (m.regs r)) m

def pops (m : Machine) (rs : List Reg) : Machine := rs.foldl pop m

variable {m : Machine} {r : Reg} {rs : List Reg} {v : BitVec 32} {vs ws : List (BitVec 32)}

@[simp] theorem compare_regs (m : Machine) (x y : BitVec 32) : (m.compare x y).regs = m.regs := rfl

@[simp] theorem set_mem (m : Machine) (r : Reg) (v : BitVec 32) : (m.set r v).mem = m.mem := rfl

@[simp] theorem set_self (m : Machine) (r : Reg) (v : BitVec 32) : (m.set r v).regs r = v := Function.update_self _ _ _

theorem set_of_ne {r' : Reg} (h : r' ≠ r) : (m.set r v).regs r' = m.regs r' := Function.update_of_ne h _ _

@[simp] theorem push_esp (m : Machine) (v : BitVec 32) : (m.push v).regs .esp = m.regs .esp - 4 := by
  simp [push, set]

theorem push_regs (hr : r ≠ .esp) : (m.push v).regs r = m.regs r := set_of_ne hr

@[simp] theorem pop_self (m : Machine) (r : Reg) : (m.pop r).regs r = m.word 0 := set_self _ _ _

theorem pop_esp (hr : r ≠ .esp) : (m.pop r).regs .esp = m.regs .esp + 4 := (set_of_ne hr.symm).trans (set_self _ _ _)

theorem pop_of_ne {r' : Reg} (h : r' ≠ r) (hesp : r' ≠ .esp) : (m.pop r).regs r' = m.regs r' :=
  (set_of_ne h).trans (set_of_ne hesp)

@[simp] theorem pop_mem (m : Machine) (r : Reg) : (m.pop r).mem = m.mem := rfl

/-- The words on a stack and what another machine has there. -/
theorem stack_words_iff {m' : Machine} {n : Nat} :
    m'.Stack ((List.range n).map m.word) ↔ ∀ i < n, m'.word i = m.word i := by
  constructor
  · intro h i hi
    exact h i _ (by simp [hi])
  · intro h i w hw
    obtain ⟨j, hj, rfl⟩ := List.getElem?_eq_some_iff.1 hw
    simpa using h i (by simpa using j)

/-- The stack is what the memory has from `esp` on. -/
theorem Stack.congr {m' : Machine} (h : m.Stack ws) (hesp : m'.regs .esp = m.regs .esp) (hmem : m'.mem = m.mem) :
    m'.Stack ws := by
  intro i w hw
  rw [word, hesp, hmem]
  exact h i w hw

theorem Stack.push (h : m.Stack ws) (hlen : ws.length < 1073741823) (v : BitVec 32) : (m.push v).Stack (v :: ws) := by
  intro i w hw
  cases i with
  | zero =>
    have hv : v = w := by simpa using hw
    have htop : m.regs .esp - 4 + 4 * BitVec.ofNat 32 0 = m.regs .esp - 4 := by bv_omega
    rw [word, push_esp, htop, ← hv]
    exact loadWord_storeWord _ _ _
  | succ i =>
    have hw' : ws[i]? = some w := by simpa using hw
    have hi : i < ws.length := (List.getElem?_eq_some_iff.1 hw').1
    have hslot : m.regs .esp - 4 + 4 * BitVec.ofNat 32 (i + 1) = m.regs .esp + 4 * BitVec.ofNat 32 i := by bv_omega
    rw [word, push_esp, hslot, ← h i w hw']
    exact loadWord_storeWord_of_apart _ _ (by bv_omega) (by bv_omega)

theorem pop_word (hr : r ≠ .esp) (i : Nat) : (m.pop r).word i = m.word (i + 1) := by
  have hslot : m.regs .esp + 4 + 4 * BitVec.ofNat 32 i = m.regs .esp + 4 * BitVec.ofNat 32 (i + 1) := by bv_omega
  rw [word, pop_esp hr, pop_mem, hslot]
  rfl

theorem pushes_regs (hr : r ≠ .esp) (rs : List Reg) : (m.pushes rs).regs r = m.regs r := by
  induction rs generalizing m with
  | nil => rfl
  | cons r' rs ih => exact (ih (m := m.push (m.regs r'))).trans (push_regs hr)

theorem pushes_esp (m : Machine) (rs : List Reg) :
    (m.pushes rs).regs .esp = m.regs .esp - 4 * BitVec.ofNat 32 rs.length := by
  induction rs generalizing m with
  | nil =>
    show m.regs .esp = m.regs .esp - 4 * BitVec.ofNat 32 0
    bv_omega
  | cons r rs ih =>
    show ((m.push (m.regs r)).pushes rs).regs .esp = m.regs .esp - 4 * BitVec.ofNat 32 (rs.length + 1)
    rw [ih, push_esp]
    bv_omega

/-- The last register pushed is on top. -/
theorem Stack.pushes (h : m.Stack ws) (hrs : .esp ∉ rs) (hlen : ws.length + rs.length ≤ 1073741823) :
    (m.pushes rs).Stack ((rs.map m.regs).reverse ++ ws) := by
  induction rs generalizing m ws with
  | nil => exact h
  | cons r rs ih =>
    rw [List.mem_cons, not_or] at hrs
    rw [List.length_cons] at hlen
    have hpush := h.push (by omega) (m.regs r)
    have hrest := ih hpush hrs.2 (by rw [List.length_cons]; omega)
    have hsame : rs.map (m.push (m.regs r)).regs = rs.map m.regs :=
      List.map_congr_left fun r' hr' => push_regs fun heq => hrs.2 (heq ▸ hr')
    rw [hsame] at hrest
    rw [List.map_cons, List.reverse_cons, List.append_assoc]
    exact hrest

theorem pops_append (m : Machine) (rs rs' : List Reg) : m.pops (rs ++ rs') = (m.pops rs).pops rs' := List.foldl_append

theorem pops_of_not_mem (hr : r ∉ rs) (hesp : r ≠ .esp) : (m.pops rs).regs r = m.regs r := by
  induction rs generalizing m with
  | nil => rfl
  | cons r' rs ih =>
    rw [List.mem_cons, not_or] at hr
    exact (ih (m := m.pop r') hr.2).trans (pop_of_ne hr.1 hesp)

theorem pops_esp (hrs : .esp ∉ rs) : (m.pops rs).regs .esp = m.regs .esp + 4 * BitVec.ofNat 32 rs.length := by
  induction rs generalizing m with
  | nil =>
    show m.regs .esp = m.regs .esp + 4 * BitVec.ofNat 32 0
    bv_omega
  | cons r rs ih =>
    rw [List.mem_cons, not_or] at hrs
    show ((m.pop r).pops rs).regs .esp = m.regs .esp + 4 * BitVec.ofNat 32 (rs.length + 1)
    rw [ih hrs.2, pop_esp (Ne.symm hrs.1)]
    bv_omega

theorem pops_word (hrs : .esp ∉ rs) (i : Nat) : (m.pops rs).word i = m.word (rs.length + i) := by
  induction rs generalizing m with
  | nil =>
    rw [List.length_nil, Nat.zero_add]
    rfl
  | cons r rs ih =>
    rw [List.mem_cons, not_or] at hrs
    show ((m.pop r).pops rs).word i = m.word (rs.length + 1 + i)
    rw [ih hrs.2, pop_word (Ne.symm hrs.1), Nat.add_right_comm]

theorem Stack.pops (h : m.Stack ws) (hrs : .esp ∉ rs) : (m.pops rs).Stack (ws.drop rs.length) := by
  intro i w hw
  rw [pops_word hrs]
  exact h _ w (by simpa using hw)

/-- A register that is popped more than once has the value of the last pop. -/
theorem pops_last (before after : List Reg) (hbefore : .esp ∉ before) (hafter : r ∉ after) (hr : r ≠ .esp) :
    (m.pops (before ++ r :: after)).regs r = m.word before.length := by
  have hpop : ((m.pops before).pop r).regs r = m.word before.length := by
    rw [pop_self, pops_word hbefore, Nat.add_zero]
  rw [pops_append, ← hpop]
  exact pops_of_not_mem hafter hr

end Machine

/-! ### Calls -/

/-- The calling convention, for a routine with `args` words of arguments and a caller that keeps `above` words behind
them.  The routine returns with its return address popped, it keeps four registers, and it does not write to what the
caller keeps; its arguments are its own. -/
structure Cdecl (f : Machine → Machine) (args above : Nat) : Prop where
  esp : ∀ m, (f m).regs .esp = m.regs .esp + 4
  saved : ∀ m, ∀ r ∈ [Reg.ebx, .esi, .edi, .ebp], (f m).regs r = m.regs r
  frame : ∀ m i, args < i → i ≤ args + above →
    loadWord (f m).mem (m.regs .esp + 4 * BitVec.ofNat 32 i) = m.word i

theorem Machine.Stack.call {f : Machine → Machine} {m : Machine} {args above : Nat} {ret : BitVec 32}
    {vs ws : List (BitVec 32)} (h : m.Stack (ret :: vs ++ ws)) (hf : Cdecl f args above) (hvs : vs.length = args)
    (hws : ws.length ≤ above) : ∃ vs', vs'.length = args ∧ (f m).Stack (vs' ++ ws) := by
  refine ⟨(List.range args).map (f m).word, by simp, fun i w hw => ?_⟩
  by_cases hi : i < args
  · rw [List.getElem?_append_left (by simpa using hi)] at hw
    simpa [hi] using hw
  · rw [List.getElem?_append_right (by simpa using hi)] at hw
    have hw' : ws[i - args]? = some w := by simpa using hw
    have hlt : i - args < ws.length := (List.getElem?_eq_some_iff.1 hw').1
    have hslot : m.regs .esp + 4 + 4 * BitVec.ofNat 32 i = m.regs .esp + 4 * BitVec.ofNat 32 (i + 1) := by bv_omega
    have hbelow : (ret :: vs ++ ws)[i + 1]? = some w := by
      rw [List.getElem?_append_right (by rw [List.length_cons]; omega), List.length_cons, hvs, Nat.add_sub_add_right]
      exact hw'
    rw [Machine.word, hf.esp, hslot, hf.frame m (i + 1) (by omega) (by omega)]
    exact h (i + 1) w hbelow

/-! ### Instructions -/

/-- The instructions, with their operands in the order of the source: the destination comes last. -/
inductive Instr (Label : Type*)
  | pushl (r : Reg)
  | popl (r : Reg)
  | movl (imm : BitVec 32) (r : Reg)
  | subl (imm : BitVec 32) (r : Reg)
  | cmpl (imm : BitVec 32) (r : Reg)
  | jl (target : Label)
  | jg (target : Label)
  /-- `call *table(,r,4)`. -/
  | callTable (r : Reg)
  | iret

/-- A piece of assembly: the text at each label, what the table of pointers has at each offset, what a call to it does,
and the address that a call pushes. -/
structure Code (Label Target : Type*) where
  text : Label → List (Instr Label)
  table : BitVec 32 → Target
  callee : Target → Machine → Machine
  ret : BitVec 32

/-- A machine with the instructions that follow, and the calls made so far: what was called, and the machine as it was
on entry. -/
structure Config (Label Target : Type*) where
  machine : Machine
  code : List (Instr Label)
  calls : List (Target × Machine)

section Run

variable {Label Target : Type*}

/-- One instruction.  `iret` leaves the routine, and the state stays as it is there. -/
def step (p : Code Label Target) (c : Config Label Target) : Config Label Target :=
  match c.code with
  | [] => c
  | .iret :: _ => c
  | .pushl r :: rest => { c with machine := c.machine.push (c.machine.regs r), code := rest }
  | .popl r :: rest => { c with machine := c.machine.pop r, code := rest }
  | .movl imm r :: rest => { c with machine := c.machine.set r imm, code := rest }
  | .subl imm r :: rest =>
    let compared := c.machine.compare (c.machine.regs r) imm
    { c with machine := compared.set r (c.machine.regs r - imm), code := rest }
  | .cmpl imm r :: rest => { c with machine := c.machine.compare (c.machine.regs r) imm, code := rest }
  | .jl target :: rest => { c with code := if c.machine.flags.less then p.text target else rest }
  | .jg target :: rest => { c with code := if c.machine.flags.greater then p.text target else rest }
  | .callTable r :: rest =>
    let entered := c.machine.push p.ret
    let target := p.table (4 * c.machine.regs r)
    { machine := p.callee target entered, code := rest, calls := c.calls ++ [(target, entered)] }

/-- The run from `c` comes by `c'`. -/
def Reaches (p : Code Label Target) (c c' : Config Label Target) : Prop := ∃ n, (step p)^[n] c = c'

/-- The run from `c` comes to `iret` in the state `c'`. -/
def Ends (p : Code Label Target) (c c' : Config Label Target) : Prop := Reaches p c c' ∧ c'.code = [.iret]

variable {p : Code Label Target} {c c' c'' : Config Label Target}

theorem Reaches.refl (c : Config Label Target) : Reaches p c c := Transition.Leads.refl c

theorem Reaches.trans (h : Reaches p c c') (h' : Reaches p c' c'') : Reaches p c c'' := Transition.Leads.trans h h'

/-- One instruction, and then the rest of the run. -/
theorem Reaches.step (h : Reaches p (step p c) c') : Reaches p c c' := Transition.Leads.head h

theorem reaches_cmpl (m : Machine) (imm : BitVec 32) (r : Reg) (code : List (Instr Label))
    (calls : List (Target × Machine)) :
    Reaches p ⟨m, .cmpl imm r :: code, calls⟩ ⟨m.compare (m.regs r) imm, code, calls⟩ := ⟨1, rfl⟩

theorem reaches_jl (m : Machine) (target : Label) (code : List (Instr Label)) (calls : List (Target × Machine)) :
    Reaches p ⟨m, .jl target :: code, calls⟩ ⟨m, if m.flags.less then p.text target else code, calls⟩ := ⟨1, rfl⟩

theorem reaches_jg (m : Machine) (target : Label) (code : List (Instr Label)) (calls : List (Target × Machine)) :
    Reaches p ⟨m, .jg target :: code, calls⟩ ⟨m, if m.flags.greater then p.text target else code, calls⟩ := ⟨1, rfl⟩

theorem reaches_callTable (m : Machine) (r : Reg) (code : List (Instr Label)) (calls : List (Target × Machine)) :
    Reaches p ⟨m, .callTable r :: code, calls⟩
      ⟨p.callee (p.table (4 * m.regs r)) (m.push p.ret), code,
        calls ++ [(p.table (4 * m.regs r), m.push p.ret)]⟩ := ⟨1, rfl⟩

theorem reaches_pushes (m : Machine) (rs : List Reg) (code : List (Instr Label)) (calls : List (Target × Machine)) :
    Reaches p ⟨m, rs.map .pushl ++ code, calls⟩ ⟨m.pushes rs, code, calls⟩ := by
  induction rs generalizing m with
  | nil => exact .refl _
  | cons r rs ih => exact .step (ih (m.push (m.regs r)))

theorem reaches_pops (m : Machine) (rs : List Reg) (code : List (Instr Label)) (calls : List (Target × Machine)) :
    Reaches p ⟨m, rs.map .popl ++ code, calls⟩ ⟨m.pops rs, code, calls⟩ := by
  induction rs generalizing m with
  | nil => exact .refl _
  | cons r rs ih => exact .step (ih (m.pop r))

theorem Ends.of_reaches (h : Reaches p c c') (h' : Ends p c' c'') : Ends p c c'' := ⟨h.trans h'.1, h'.2⟩

/-- A run comes to `iret` in one state only. -/
theorem Ends.unique (h : Ends p c c') (h' : Ends p c c'') : c' = c'' := by
  have hstays : ∀ c : Config Label Target, c.code = [.iret] → X86.step p c = c := by
    intro c hc
    unfold X86.step
    rw [hc]
  obtain ⟨⟨n, rfl⟩, hn⟩ := h
  obtain ⟨⟨k, rfl⟩, hk⟩ := h'
  rcases Nat.le_total n k with hle | hle
  · exact (Transition.iterate_eq_of_fixed (hstays _ hn) hle).symm
  · exact Transition.iterate_eq_of_fixed (hstays _ hk) hle

end Run

end X86
