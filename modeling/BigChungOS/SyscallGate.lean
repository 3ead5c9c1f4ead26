import BigChungOS.Lib.X86

/-!
# The gate of the system calls

`int 0x80` enters `sys_call_handler_asm` with the number of the call in `eax` and its arguments in `ebx`, `ecx` and
`edx`.  The number is decremented and compared with the bounds of `jump_table`, but the upper one is `10` in a table of
ten entries, so that call 11 passes the test and jumps to what lies behind the table.  With every other number the gate
does what it should, whatever the called function does to its arguments and to the registers that are its own: they are
pushed twice (`gate_ok_iff`).
-/

namespace BigChungOS

open X86

/-- The entries of `jump_table`. -/
inductive SysCall
  | sysHalt | sysExecute | sysRead | sysWrite | sysOpen | sysClose | sysGetargs | sysVidmap | sysSetHandler
  | sysSigreturn
  deriving DecidableEq

def jumpTable : List SysCall :=
  [.sysHalt, .sysExecute, .sysRead, .sysWrite, .sysOpen, .sysClose, .sysGetargs, .sysVidmap, .sysSetHandler,
    .sysSigreturn]

inductive GateLabel
  | sysCallHandlerAsm
  | failHandler

def gateText : GateLabel → List (Instr GateLabel)
  | .sysCallHandlerAsm =>
    [.pushl .esi,
      .pushl .edi,
      .subl 1 .eax,
      .cmpl 0 .eax,
      .jl .failHandler,
      .cmpl 10 .eax,
      .jg .failHandler,
      .pushl .edx,
      .pushl .ecx,
      .pushl .ebx,
      .pushl .edx,
      .pushl .ecx,
      .pushl .ebx,
      .callTable .eax,
      .popl .ebx,
      .popl .ecx,
      .popl .edx,
      .popl .ebx,
      .popl .ecx,
      .popl .edx,
      .popl .edi,
      .popl .esi,
      .iret]
  | .failHandler =>
    [.movl (-1) .eax,
      .popl .edi,
      .popl .esi,
      .iret]

/-- What `jump_table` has at an offset, `none` behind its end. -/
def tableEntry (offset : BitVec 32) : Option SysCall := jumpTable[offset.toNat / 4]?

/-- The gate, with what the called functions do to the machine, and what a jump behind the table does. -/
def gate (body : Option SysCall → Machine → Machine) (ret : BitVec 32) : Code GateLabel (Option SysCall) :=
  ⟨gateText, tableEntry, body, ret⟩

/-- The machine enters the handler. -/
def gateEntry (m : Machine) : Config GateLabel (Option SysCall) := ⟨m, gateText .sysCallHandlerAsm, []⟩

/-- The three arguments that a function finds on entry, behind its return address. -/
def argsOf (entered : Machine) : List (BitVec 32) := [entered.word 1, entered.word 2, entered.word 3]

/-- The stack pointer is back where it was, with the frame of the interrupt on the stack, and the registers of the user
have their values again. -/
structure Restored (m m' : Machine) : Prop where
  esp : m'.regs .esp = m.regs .esp
  frame : ∀ i < 5, m'.word i = m.word i
  user : ∀ r ∈ [Reg.ebx, .ecx, .edx, .esi, .edi], m'.regs r = m.regs r

/-- What the gate has done when it comes to `iret`.  With a number from 1 to 10 in `eax` it has made one call, of that
entry of the table, and `eax` is the result; with any other number it has made none, and `eax` is -1. -/
structure GateOk (body : Option SysCall → Machine → Machine) (m : Machine) (c : Config GateLabel (Option SysCall)) :
    Prop where
  restored : Restored m c.machine
  called : 1 ≤ (m.regs .eax).toNat → (m.regs .eax).toNat ≤ 10 →
    ∃ f entered, jumpTable[(m.regs .eax).toNat - 1]? = some f ∧ c.calls = [(some f, entered)] ∧
      argsOf entered = [m.regs .ebx, m.regs .ecx, m.regs .edx] ∧
      c.machine.regs .eax = (body (some f) entered).regs .eax
  refused : ¬(1 ≤ (m.regs .eax).toNat ∧ (m.regs .eax).toNat ≤ 10) → c.calls = [] ∧ c.machine.regs .eax = -1

/-! ### The number -/

/-- The two comparisons let through the numbers from 1 to 11. -/
private theorem passes_iff (e : BitVec 32) :
    (e - 1).slt 0 = false ∧ (10 : BitVec 32).slt (e - 1) = false ↔ 1 ≤ e.toNat ∧ e.toNat ≤ 11 := by
  have hsub : (e - 1).toNat = (4294967295 + e.toNat) % 4294967296 := by bv_omega
  have he := e.isLt
  have h0 : (0 : BitVec 32).toNat = 0 := rfl
  have h10 : (10 : BitVec 32).toNat = 10 := rfl
  simp only [BitVec.slt, BitVec.toInt_eq_toNat_cond, hsub, h0, h10, decide_eq_false_iff_not]
  split_ifs <;> omega

/-- A number that passes is scaled to its place in the table. -/
private theorem tableEntry_scaled {e : BitVec 32} (h : 1 ≤ e.toNat) (h' : e.toNat ≤ 11) :
    tableEntry (4 * (e - 1)) = jumpTable[e.toNat - 1]? := by
  have hplace : (4 * (e - 1)).toNat / 4 = e.toNat - 1 := by bv_omega
  rw [tableEntry, hplace]

/-! ### The paths -/

section Paths

variable {body : Option SysCall → Machine → Machine} {ret : BitVec 32} (m : Machine)

/-- Both registers are pushed, and `eax` is decremented. -/
def decremented : Machine :=
  ((m.pushes [.esi, .edi]).compare (m.regs .eax) 1).set .eax (m.regs .eax - 1)

/-- After the comparison with a bound. -/
def tested (bound : BitVec 32) : Machine := (decremented m).compare (m.regs .eax - 1) bound

/-- The frame of the interrupt. -/
def iretFrame : List (BitVec 32) := (List.range 5).map m.word

variable {m} {bound : BitVec 32}

private theorem tested_regs {r : Reg} (hesp : r ≠ .esp) (heax : r ≠ .eax) : (tested m bound).regs r = m.regs r := by
  have hdecremented : (decremented m).regs r = (m.pushes [.esi, .edi]).regs r := Machine.set_of_ne heax
  exact hdecremented.trans (Machine.pushes_regs hesp _)

private theorem tested_eax : (tested m bound).regs .eax = m.regs .eax - 1 := by
  have hdecremented : (decremented m).regs .eax = m.regs .eax - 1 := Machine.set_self _ _ _
  exact hdecremented

private theorem decremented_esp : (decremented m).regs .esp = (m.pushes [.esi, .edi]).regs .esp :=
  Machine.set_of_ne (by decide)

private theorem tested_esp : (tested m bound).regs .esp = m.regs .esp - 8 :=
  decremented_esp.trans (Machine.pushes_esp m _)

private theorem tested_stack : (tested m bound).Stack (m.regs .edi :: m.regs .esi :: iretFrame m) := by
  have hframe : m.Stack (iretFrame m) := Machine.stack_words_iff.2 fun _ _ => rfl
  have hpushes : (m.pushes [.esi, .edi]).Stack _ := hframe.pushes (by decide) (by simp [iretFrame])
  exact hpushes.congr decremented_esp rfl

/-- What follows the first test, and what follows the second. -/
private theorem gate_first_test :
    Reaches (gate body ret) (gateEntry m)
      ⟨tested m 0, if (m.regs .eax - 1).slt 0 then gateText .failHandler
        else (gateText .sysCallHandlerAsm).drop 5, []⟩ := by
  have hentry : Reaches (gate body ret) (gateEntry m) ⟨tested m 0, (gateText .sysCallHandlerAsm).drop 4, []⟩ := ⟨4, rfl⟩
  have hless : (tested m 0).flags.less = (m.regs .eax - 1).slt 0 := Flags.less_ofSub _ _
  rw [← hless]
  exact hentry.trans (reaches_jl _ _ _ _)

private theorem gate_second_test :
    Reaches (gate body ret) ⟨tested m 0, (gateText .sysCallHandlerAsm).drop 5, []⟩
      ⟨tested m 10, if (10 : BitVec 32).slt (m.regs .eax - 1) then gateText .failHandler
        else (gateText .sysCallHandlerAsm).drop 7, []⟩ := by
  have hcompare : (tested m 0).compare ((tested m 0).regs .eax) 10 = tested m 10 := by
    rw [tested_eax]
    rfl
  have hgreater : (tested m 10).flags.greater = (10 : BitVec 32).slt (m.regs .eax - 1) := Flags.greater_ofSub _ _
  have hcmpl := reaches_cmpl (p := gate body ret) (tested m 0) 10 .eax ((gateText .sysCallHandlerAsm).drop 6) []
  rw [hcompare] at hcmpl
  rw [← hgreater]
  exact hcmpl.trans (reaches_jg _ _ _ _)

/-- The end of the path through `fail_handler`. -/
def refusedEnd (m : Machine) (bound : BitVec 32) : Machine := ((tested m bound).set .eax (-1)).pops [.edi, .esi]

/-- A number below the bounds fails at the first comparison, one above them at the second. -/
private theorem gate_refuses (h : ¬(1 ≤ (m.regs .eax).toNat ∧ (m.regs .eax).toNat ≤ 11)) :
    ∃ bound, Ends (gate body ret) (gateEntry m) ⟨refusedEnd m bound, [.iret], []⟩ := by
  -- from a jump that is taken on
  have hfail : ∀ bound, Ends (gate body ret) ⟨tested m bound, gateText .failHandler, []⟩
      ⟨refusedEnd m bound, [.iret], []⟩ := fun bound =>
    ⟨.step (reaches_pops ((tested m bound).set .eax (-1)) [.edi, .esi] [.iret] []), rfl⟩
  have hfirst : Reaches (gate body ret) (gateEntry m) _ := gate_first_test
  have hsecond : Reaches (gate body ret) ⟨tested m 0, _, _⟩ _ := gate_second_test
  rw [← passes_iff, not_and_or, Bool.not_eq_false, Bool.not_eq_false] at h
  by_cases hlow : (m.regs .eax - 1).slt 0 = true
  · rw [if_pos hlow] at hfirst
    exact ⟨0, (hfail 0).of_reaches hfirst⟩
  · rw [if_neg hlow] at hfirst
    rw [if_pos (h.resolve_left hlow)] at hsecond
    exact ⟨10, (hfail 10).of_reaches (hfirst.trans hsecond)⟩

private theorem refusedEnd_eax : (refusedEnd m bound).regs .eax = -1 :=
  (Machine.pops_of_not_mem (by decide) (by decide)).trans (Machine.set_self _ _ _)

private theorem refusedEnd_restored : Restored m (refusedEnd m bound) := by
  have hstack : ((tested m bound).set .eax (-1)).Stack (m.regs .edi :: m.regs .esi :: iretFrame m) :=
    tested_stack.congr (Machine.set_of_ne (by decide)) rfl
  have hothers : ∀ r, r ≠ .esp → r ≠ .eax → r ∉ [Reg.edi, .esi] → (refusedEnd m bound).regs r = m.regs r :=
    fun r hesp heax hr =>
      (Machine.pops_of_not_mem hr hesp).trans ((Machine.set_of_ne heax).trans (tested_regs hesp heax))
  refine ⟨?_, Machine.stack_words_iff.1 (hstack.pops (by decide)), ?_⟩
  · rw [refusedEnd, Machine.pops_esp (by decide), Machine.set_of_ne (by decide), tested_esp]
    show m.regs .esp - 8 + 4 * 2 = m.regs .esp
    bv_omega
  · simp only [List.forall_mem_cons, List.not_mem_nil, false_implies, implies_true, and_true]
    refine ⟨?_, ?_, ?_, ?_, ?_⟩
    · exact hothers .ebx (by decide) (by decide) (by decide)
    · exact hothers .ecx (by decide) (by decide) (by decide)
    · exact hothers .edx (by decide) (by decide) (by decide)
    · exact (Machine.pops_last [.edi] [] (by decide) (by decide) (by decide)).trans (hstack 1 _ rfl)
    · exact (Machine.pops_last [] [.esi] (by decide) (by decide) (by decide)).trans (hstack 0 _ rfl)

/-- The machine with the arguments on the stack, above them the registers to restore. -/
def pushed (m : Machine) : Machine := (tested m 10).pushes [.edx, .ecx, .ebx, .edx, .ecx, .ebx]

/-- What the handler keeps on the stack during the call. -/
def kept (m : Machine) : List (BitVec 32) :=
  [m.regs .ebx, m.regs .ecx, m.regs .edx, m.regs .edi, m.regs .esi] ++ iretFrame m

/-- The machine as the called function finds it. -/
def entered (m : Machine) (ret : BitVec 32) : Machine := (pushed m).push ret

/-- The end of the path through the table. -/
def calledEnd (m' : Machine) : Machine := m'.pops [.ebx, .ecx, .edx, .ebx, .ecx, .edx, .edi, .esi]

private theorem pushed_esp : (pushed m).regs .esp = m.regs .esp - 32 := by
  rw [pushed, Machine.pushes_esp, tested_esp]
  show m.regs .esp - 8 - 4 * 6 = m.regs .esp - 32
  bv_omega

private theorem entered_stack : (entered m ret).Stack (ret :: [m.regs .ebx, m.regs .ecx, m.regs .edx] ++ kept m) := by
  have hpushes : (pushed m).Stack _ := tested_stack.pushes (by decide) (by simp [iretFrame])
  have hregs : [Reg.edx, .ecx, .ebx, .edx, .ecx, .ebx].map (tested m 10).regs =
      [m.regs .edx, m.regs .ecx, m.regs .ebx, m.regs .edx, m.regs .ecx, m.regs .ebx] := by
    simp only [List.map_cons, List.map_nil, tested_regs, ne_eq, reduceCtorEq, not_false_eq_true]
  rw [hregs] at hpushes
  exact hpushes.push (by simp [iretFrame]) ret

/-- A number that passes both tests leads to a call. -/
private theorem gate_calls (h : 1 ≤ (m.regs .eax).toNat) (h' : (m.regs .eax).toNat ≤ 11) :
    Ends (gate body ret) (gateEntry m)
      ⟨calledEnd (body jumpTable[(m.regs .eax).toNat - 1]? (entered m ret)), [.iret],
        [(jumpTable[(m.regs .eax).toNat - 1]?, entered m ret)]⟩ := by
  have hfirst : Reaches (gate body ret) (gateEntry m) _ := gate_first_test
  have hsecond : Reaches (gate body ret) ⟨tested m 0, _, _⟩ _ := gate_second_test
  obtain ⟨hlow, hhigh⟩ := (passes_iff (m.regs .eax)).2 ⟨h, h'⟩
  rw [hlow] at hfirst
  rw [hhigh] at hsecond
  have heax : (pushed m).regs .eax = m.regs .eax - 1 := (Machine.pushes_regs (by decide) _).trans tested_eax
  have htarget : tableEntry (4 * (pushed m).regs .eax) = jumpTable[(m.regs .eax).toNat - 1]? := by
    rw [heax, tableEntry_scaled h h']
  have hpushes : Reaches (gate body ret) ⟨tested m 10, (gateText .sysCallHandlerAsm).drop 7, []⟩
      ⟨pushed m, (gateText .sysCallHandlerAsm).drop 13, []⟩ :=
    reaches_pushes _ [.edx, .ecx, .ebx, .edx, .ecx, .ebx] _ _
  have hcall := reaches_callTable (p := gate body ret) (pushed m) .eax ((gateText .sysCallHandlerAsm).drop 14) []
  have hcall' : Reaches (gate body ret) ⟨pushed m, (gateText .sysCallHandlerAsm).drop 13, []⟩
      ⟨body (tableEntry (4 * (pushed m).regs .eax)) (entered m ret), (gateText .sysCallHandlerAsm).drop 14,
        [(tableEntry (4 * (pushed m).regs .eax), entered m ret)]⟩ := hcall
  rw [htarget] at hcall'
  have hpops := fun m' calls => reaches_pops (p := gate body ret) m' [.ebx, .ecx, .edx, .ebx, .ecx, .edx, .edi, .esi]
    [.iret] calls
  exact ⟨hfirst.trans (hsecond.trans (hpushes.trans (hcall'.trans (hpops _ _)))), rfl⟩

private theorem calledEnd_eax (m' : Machine) : (calledEnd m').regs .eax = m'.regs .eax :=
  Machine.pops_of_not_mem (by decide) (by decide)

private theorem entered_args : argsOf (entered m ret) = [m.regs .ebx, m.regs .ecx, m.regs .edx] := by
  have hstack : (entered m ret).Stack _ := entered_stack
  rw [argsOf, hstack 1 _ rfl, hstack 2 _ rfl, hstack 3 _ rfl]

/-- The six pops that follow the call skip the arguments and restore the registers. -/
private theorem calledEnd_restored {f : Machine → Machine} (hf : Cdecl f 3 10) :
    Restored m (calledEnd (f (entered m ret))) := by
  have hentered : (entered m ret).Stack (ret :: [m.regs .ebx, m.regs .ecx, m.regs .edx] ++ kept m) := entered_stack
  obtain ⟨vs, hvs, hstack⟩ := hentered.call hf rfl (by simp [kept, iretFrame])
  obtain ⟨a, b, c, rfl⟩ := List.length_eq_three.1 hvs
  refine ⟨?_, Machine.stack_words_iff.1 (hstack.pops (by decide)), ?_⟩
  · rw [calledEnd, Machine.pops_esp (by decide), hf.esp, entered, Machine.push_esp, pushed_esp]
    show m.regs .esp - 32 - 4 + 4 + 4 * 8 = m.regs .esp
    bv_omega
  · simp only [List.forall_mem_cons, List.not_mem_nil, false_implies, implies_true, and_true]
    refine ⟨?_, ?_, ?_, ?_, ?_⟩
    · exact (Machine.pops_last [.ebx, .ecx, .edx] [.ecx, .edx, .edi, .esi] (by decide) (by decide) (by decide)).trans
        (hstack 3 _ rfl)
    · exact (Machine.pops_last [.ebx, .ecx, .edx, .ebx] [.edx, .edi, .esi] (by decide) (by decide) (by decide)).trans
        (hstack 4 _ rfl)
    · exact (Machine.pops_last [.ebx, .ecx, .edx, .ebx, .ecx] [.edi, .esi] (by decide) (by decide) (by decide)).trans
        (hstack 5 _ rfl)
    · exact (Machine.pops_last [.ebx, .ecx, .edx, .ebx, .ecx, .edx, .edi] [] (by decide) (by decide) (by decide)).trans
        (hstack 7 _ rfl)
    · exact (Machine.pops_last [.ebx, .ecx, .edx, .ebx, .ecx, .edx] [.esi] (by decide) (by decide) (by decide)).trans
        (hstack 6 _ rfl)

/-! ### The gate -/

private theorem gateOk_refuses (h : ¬(1 ≤ (m.regs .eax).toNat ∧ (m.regs .eax).toNat ≤ 11)) :
    ∃ c, Ends (gate body ret) (gateEntry m) c ∧ GateOk body m c := by
  obtain ⟨bound, hends⟩ : ∃ bound, Ends (gate body ret) (gateEntry m) ⟨refusedEnd m bound, [.iret], []⟩ :=
    gate_refuses h
  exact ⟨_, hends, refusedEnd_restored, fun hlow hhigh => absurd ⟨hlow, by omega⟩ h, fun _ => ⟨rfl, refusedEnd_eax⟩⟩

private theorem gateOk_calls (hbody : ∀ f, Cdecl (body (some f)) 3 10) (h : 1 ≤ (m.regs .eax).toNat)
    (h' : (m.regs .eax).toNat ≤ 10) : ∃ c, Ends (gate body ret) (gateEntry m) c ∧ GateOk body m c := by
  have hends : Ends (gate body ret) (gateEntry m) _ := gate_calls h (Nat.le_succ_of_le h')
  have hlt : (m.regs .eax).toNat - 1 < jumpTable.length := by
    show (m.regs .eax).toNat - 1 < 10
    omega
  obtain ⟨f, hf⟩ : ∃ f, jumpTable[(m.regs .eax).toNat - 1]? = some f := ⟨_, List.getElem?_eq_getElem hlt⟩
  rw [hf] at hends
  refine ⟨_, hends, calledEnd_restored (hbody f), fun _ _ => ?_, fun hno => absurd ⟨h, h'⟩ hno⟩
  exact ⟨f, entered m ret, hf, rfl, entered_args, calledEnd_eax _⟩

/-- Call 11 jumps to what lies behind the table. -/
private theorem not_gateOk_of_eleven (h : m.regs .eax = 11) :
    ¬∃ c, Ends (gate body ret) (gateEntry m) c ∧ GateOk body m c := by
  rintro ⟨c, hends, hok⟩
  have heax : (m.regs .eax).toNat = 11 := by rw [h]; rfl
  have hbehind := hends.unique (gate_calls (by omega) (by omega))
  have hnone := (hok.refused (by omega)).1
  rw [hbehind] at hnone
  cases hnone

end Paths

/-- The system call gate.  If the functions of the table follow the calling convention, with three arguments and the
ten words that the handler and the interrupt have on the stack, then the gate does what it should exactly if `eax` is
not 11, whatever lies behind the table. -/
theorem gate_ok_iff {body : Option SysCall → Machine → Machine} (hbody : ∀ f, Cdecl (body (some f)) 3 10)
    (ret : BitVec 32) (m : Machine) :
    (∃ c, Ends (gate body ret) (gateEntry m) c ∧ GateOk body m c) ↔ m.regs .eax ≠ 11 := by
  refine ⟨fun hok heax => not_gateOk_of_eleven heax hok, fun hne => ?_⟩
  by_cases hpasses : 1 ≤ (m.regs .eax).toNat ∧ (m.regs .eax).toNat ≤ 11
  · have hten : (m.regs .eax).toNat ≠ 11 := fun heq => hne (BitVec.eq_of_toNat_eq heq)
    exact gateOk_calls hbody hpasses.1 (by omega)
  · exact gateOk_refuses hpasses

/-! ### A call -/

/-- A function that returns its first argument, after it has used the place of the argument for something else. -/
def returnsFirst (m : Machine) : Machine :=
  { (m.set .eax (m.word 1)).set .esp (m.regs .esp + 4) with mem := storeWord m.mem (m.regs .esp + 4) 0 }

private theorem returnsFirst_cdecl : Cdecl returnsFirst 3 10 where
  esp m := Machine.set_self (m.set .eax (m.word 1)) .esp (m.regs .esp + 4)
  saved m r hr := by
    have hne : r ≠ .esp ∧ r ≠ .eax := by
      constructor <;> (rintro rfl; simp at hr)
    exact (Machine.set_of_ne hne.1).trans (Machine.set_of_ne hne.2)
  frame m i hi hi' := loadWord_storeWord_of_apart _ _ (by bv_omega) (by bv_omega)

/-- A user program calls number `eax` with `ebx` = 5. -/
def userCall (eax : BitVec 32) : Machine :=
  { regs := fun r => match r with
      | .eax => eax
      | .ebx => 5
      | .esp => 0x7FFFE8
      | _ => 0
    mem := fun _ => 0
    flags := ⟨false, false, false⟩ }

/-- Call 3. -/
theorem third_call_ok :
    ∃ c, Ends (gate (fun _ => returnsFirst) 0x400100) (gateEntry (userCall 3)) c ∧
      GateOk (fun _ => returnsFirst) (userCall 3) c :=
  (gate_ok_iff (fun _ => returnsFirst_cdecl) 0x400100 (userCall 3)).2 (by decide)

/-- Call 11 is not refused. -/
theorem eleventh_call_jumps :
    (∀ _ : SysCall, Cdecl returnsFirst 3 10) ∧ (userCall 11).regs .eax = 11 ∧
      ¬∃ c, Ends (gate (fun _ => returnsFirst) 0x400100) (gateEntry (userCall 11)) c ∧
        GateOk (fun _ => returnsFirst) (userCall 11) c :=
  ⟨fun _ => returnsFirst_cdecl, rfl, not_gateOk_of_eleven rfl⟩

end BigChungOS
