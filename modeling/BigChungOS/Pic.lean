import BigChungOS.Lib.Bits
import BigChungOS.Lib.Runs

/-!
# The interrupt controllers (i8259.c)

The driver keeps the masks of the two controllers in `master_mask` and `slave_mask`, and writes one of them to its data
port at every call.  An interrupt should be masked or not as the last call for it says.  For the master it is.  But
`disable_irq` sets the bit of its argument in both masks: for a slave interrupt that is a bit above the byte, so it
masks nothing; for a master interrupt `n` it is the bit of interrupt `n + 8`, which is masked when the slave's port is
written the next time.  `pic_masks_iff` says which calls go right.
-/

namespace BigChungOS

open Bits Transition

/-- The two masks, and the byte last written to each port. -/
structure Pic where
  masterMask : UInt8
  slaveMask : UInt8
  ports : Nat → UInt8

namespace Pic

/-- `PIC1_COMMAND`, `PIC1_DATA`, `PIC2_COMMAND` and `PIC2_DATA`. -/
def pic1Command : Nat := 0x20
def pic1Data : Nat := 0x21
def pic2Command : Nat := 0xA0
def pic2Data : Nat := 0xA1

/-- `outb(v, port)`. -/
def outb (p : Pic) (v : UInt8) (port : Nat) : Pic := { p with ports := Function.update p.ports port v }

private theorem outb_port (p : Pic) (v : UInt8) (port : Nat) : (p.outb v port).ports port = v :=
  Function.update_self _ _ _

private theorem outb_other (p : Pic) (v : UInt8) {port other : Nat} (h : other ≠ port) :
    (p.outb v port).ports other = p.ports other := Function.update_of_ne h _ _

/-- `i8259_init`. -/
def i8259Init (p : Pic) : Pic :=
  let p := p.outb p.masterMask pic1Data
  let p := p.outb p.slaveMask pic2Data
  let p := p.outb 0x11 pic1Command
  let p := p.outb 0x20 pic1Data
  let p := p.outb 0x04 pic1Data
  let p := p.outb 0x01 pic1Data
  let p := p.outb 0x11 pic2Command
  let p := p.outb 0x28 pic2Data
  let p := p.outb 0x02 pic2Data
  let p := p.outb 0x01 pic2Data
  let p := p.outb p.masterMask pic1Data
  p.outb p.slaveMask pic2Data

/-- `enable_irq`. -/
def enableIrq (p : Pic) (irqNum : UInt32) : Pic :=
  if irqNum > 15 then p
  else
    let mask : UInt32 := ~~~(1 <<< irqNum)
    if irqNum ≥ 8 then
      let unmask : UInt32 := ~~~(1 <<< (irqNum - 8))
      let p := { p with slaveMask := (p.slaveMask.toUInt32 &&& unmask).toUInt8 }
      p.outb p.slaveMask pic2Data
    else
      let p := { p with masterMask := (p.masterMask.toUInt32 &&& mask).toUInt8 }
      p.outb p.masterMask pic1Data

/-- `disable_irq`. -/
def disableIrq (p : Pic) (irqNum : UInt32) : Pic :=
  if irqNum > 15 then p
  else
    let mask : UInt32 := 1 <<< irqNum
    let p := { p with masterMask := (p.masterMask.toUInt32 ||| mask).toUInt8 }
    let p := { p with slaveMask := (p.slaveMask.toUInt32 ||| mask).toUInt8 }
    if irqNum &&& 8 ≠ 0 then p.outb p.slaveMask pic2Data else p.outb p.masterMask pic1Data

end Pic

inductive PicCall
  | enable (irqNum : UInt32)
  | disable (irqNum : UInt32)

namespace PicCall

/-- The interrupt a call is for. -/
def irqNum : PicCall → UInt32
  | .enable irqNum | .disable irqNum => irqNum

/-- Whether a call is to enable it. -/
def enables : PicCall → Bool
  | .enable _ => true
  | .disable _ => false

end PicCall

/-- The controllers after a call. -/
def Pic.call (p : Pic) : PicCall → Pic
  | .enable irqNum => p.enableIrq irqNum
  | .disable irqNum => p.disableIrq irqNum

/-- The controllers, and for each interrupt whether the last call has enabled it. -/
structure Irqs where
  pic : Pic
  enabled : Nat → Bool

/-- The state after a call. -/
def Irqs.after (s : Irqs) (call : PicCall) : Irqs :=
  ⟨s.pic.call call, Function.update s.enabled call.irqNum.toNat call.enables⟩

/-- A call for one of the sixteen interrupts. -/
inductive IrqStep : Irqs → PicCall → Irqs → Prop
  | call {s : Irqs} {call : PicCall} (h : call.irqNum ≤ 15) : IrqStep s call (s.after call)

/-- Interrupt `n` is not masked. -/
def Unmasked (p : Pic) (n : Nat) : Prop :=
  if n < 8 then bit (p.ports Pic.pic1Data) n = false else bit (p.ports Pic.pic2Data) (n - 8) = false

/-- The ports have the masks that the last calls ask for. -/
def MasksFollow (s : Irqs) : Prop := ∀ n < 16, Unmasked s.pic n ↔ s.enabled n = true

/-- A call for a slave interrupt writes `slave_mask`, which must not mask another one that is enabled; and if it is to
disable one, its bit is there already. -/
def WritesMasks (s : Irqs) (call : PicCall) : Prop :=
  8 ≤ call.irqNum.toNat →
    (∀ n, 8 ≤ n → n < 16 → n ≠ call.irqNum.toNat → s.enabled n = true → bit s.pic.slaveMask (n - 8) = false) ∧
    (call.enables = false → bit s.pic.slaveMask (call.irqNum.toNat - 8) = true)

/-! ### What a call does -/

section Calls

variable (p : Pic) {irqNum : UInt32} {call : PicCall}

private theorem not_gt (h : irqNum ≤ 15) : ¬irqNum > 15 := UInt32.not_lt.2 h

private theorem toNat_le (h : irqNum ≤ 15) : irqNum.toNat ≤ 15 := UInt32.le_iff_toNat_le.1 h

private theorem and_eight_iff (h : irqNum ≤ 15) : irqNum &&& 8 ≠ 0 ↔ 8 ≤ irqNum.toNat := by
  have hbits : ∀ n : Fin 16, UInt32.ofNat n &&& 8 ≠ 0 ↔ 8 ≤ n.val := by decide
  have hle := toNat_le h
  have hn := hbits ⟨irqNum.toNat, by omega⟩
  rwa [UInt32.ofNat_toNat] at hn

/-- A call for a master interrupt sets its bit as it should, in the mask and in the port; the slave's mask may get a
bit more, and its port stays. -/
structure MasterCalled (p : Pic) (call : PicCall) : Prop where
  port : (p.call call).ports Pic.pic1Data = (p.call call).masterMask
  bits : ∀ k < 8, bit (p.call call).masterMask k =
    if k = call.irqNum.toNat then !call.enables else bit p.masterMask k
  slavePort : (p.call call).ports Pic.pic2Data = p.ports Pic.pic2Data
  slaveBits : ∀ k < 8, bit p.slaveMask k = true → bit (p.call call).slaveMask k = true

/-- A call for a slave interrupt clears its bit, or changes none, and writes the mask to the port. -/
structure SlaveCalled (p : Pic) (call : PicCall) : Prop where
  port : (p.call call).ports Pic.pic2Data = (p.call call).slaveMask
  bits : ∀ k < 8, bit (p.call call).slaveMask k =
    if k + 8 = call.irqNum.toNat ∧ call.enables = true then false else bit p.slaveMask k
  masterPort : (p.call call).ports Pic.pic1Data = p.ports Pic.pic1Data
  masterMask : (p.call call).masterMask = p.masterMask

private theorem enableIrq_master (h : irqNum ≤ 15) (hlow : irqNum.toNat < 8) : MasterCalled p (.enable irqNum) := by
  have hmaster : ¬irqNum ≥ 8 := fun hge => by
    have hle : 8 ≤ irqNum.toNat := UInt32.le_iff_toNat_le.1 hge
    omega
  have hcall : p.call (.enable irqNum) =
      { p with masterMask := (p.masterMask.toUInt32 &&& ~~~(1 <<< irqNum)).toUInt8 }.outb
        (p.masterMask.toUInt32 &&& ~~~(1 <<< irqNum)).toUInt8 Pic.pic1Data := by
    rw [Pic.call, Pic.enableIrq, if_neg (not_gt h)]
    dsimp only
    rw [if_neg hmaster]
  constructor <;> rw [hcall]
  · exact Pic.outb_port _ _ _
  · intro k hk
    refine (bit_clear (by omega) p.masterMask hk).trans ?_
    by_cases hkn : k = irqNum.toNat <;> simp [PicCall.irqNum, PicCall.enables, hkn]
  · exact Pic.outb_other _ _ (by decide)
  · exact fun k _ hset => hset

private theorem enableIrq_slave (h : irqNum ≤ 15) (hhigh : 8 ≤ irqNum.toNat) : SlaveCalled p (.enable irqNum) := by
  have hle := toNat_le h
  have hslave : irqNum ≥ 8 := UInt32.le_iff_toNat_le.2 hhigh
  have hsub : (irqNum - 8).toNat = irqNum.toNat - 8 := UInt32.toNat_sub_of_le _ _ hslave
  have hcall : p.call (.enable irqNum) =
      { p with slaveMask := (p.slaveMask.toUInt32 &&& ~~~(1 <<< (irqNum - 8))).toUInt8 }.outb
        (p.slaveMask.toUInt32 &&& ~~~(1 <<< (irqNum - 8))).toUInt8 Pic.pic2Data := by
    rw [Pic.call, Pic.enableIrq, if_neg (not_gt h)]
    dsimp only
    rw [if_pos hslave]
  constructor <;> rw [hcall]
  · exact Pic.outb_port _ _ _
  · intro k hk
    refine (bit_clear (by omega) p.slaveMask hk).trans ?_
    rw [hsub]
    by_cases hkn : k + 8 = irqNum.toNat
    · have hself : irqNum.toNat - 8 = k := by omega
      simp [PicCall.irqNum, PicCall.enables, hkn, hself]
    · have hother : k ≠ irqNum.toNat - 8 := by omega
      simp [PicCall.irqNum, hkn, hother]
  · exact Pic.outb_other _ _ (by decide)
  · rfl

/-- `disable_irq` of a master interrupt sets its bit in both masks. -/
private theorem disableIrq_master (h : irqNum ≤ 15) (hlow : irqNum.toNat < 8) : MasterCalled p (.disable irqNum) := by
  have hmaster : ¬irqNum &&& 8 ≠ 0 := by
    rw [and_eight_iff h]
    omega
  have hcall : p.call (.disable irqNum) =
      { p with
        masterMask := (p.masterMask.toUInt32 ||| 1 <<< irqNum).toUInt8
        slaveMask := (p.slaveMask.toUInt32 ||| 1 <<< irqNum).toUInt8 }.outb
        (p.masterMask.toUInt32 ||| 1 <<< irqNum).toUInt8 Pic.pic1Data := by
    rw [Pic.call, Pic.disableIrq, if_neg (not_gt h)]
    dsimp only
    rw [if_neg hmaster]
  constructor <;> rw [hcall]
  · exact Pic.outb_port _ _ _
  · intro k hk
    refine (bit_set (by omega) p.masterMask hk).trans ?_
    by_cases hkn : k = irqNum.toNat <;> simp [PicCall.irqNum, PicCall.enables, hkn]
  · exact Pic.outb_other _ _ (by decide)
  · intro k hk hset
    refine (bit_set (by omega) p.slaveMask hk).trans ?_
    rw [hset, Bool.true_or]

/-- `disable_irq` of a slave interrupt writes the slave's mask as it is: the bit it sets is above the byte. -/
private theorem disableIrq_slave (h : irqNum ≤ 15) (hhigh : 8 ≤ irqNum.toNat) : SlaveCalled p (.disable irqNum) := by
  have hle := toNat_le h
  have hkept : ∀ b : UInt8, (b.toUInt32 ||| 1 <<< irqNum).toUInt8 = b := by
    refine fun b => eq_of_bits fun k hk => ?_
    rw [bit_set (by omega) _ hk, decide_eq_false (by omega), Bool.or_false]
  have hcall : p.call (.disable irqNum) = p.outb p.slaveMask Pic.pic2Data := by
    rw [Pic.call, Pic.disableIrq, if_neg (not_gt h)]
    dsimp only
    rw [if_pos ((and_eight_iff h).2 hhigh), hkept, hkept]
  constructor <;> rw [hcall]
  · exact Pic.outb_port _ _ _
  · intro k _
    rw [if_neg fun hc => Bool.false_ne_true hc.2]
    rfl
  · exact Pic.outb_other _ _ (by decide)
  · rfl

private theorem call_master (h : call.irqNum ≤ 15) (hlow : call.irqNum.toNat < 8) : MasterCalled p call := by
  cases call with
  | enable irqNum => exact enableIrq_master p h hlow
  | disable irqNum => exact disableIrq_master p h hlow

private theorem call_slave (h : call.irqNum ≤ 15) (hhigh : 8 ≤ call.irqNum.toNat) : SlaveCalled p call := by
  cases call with
  | enable irqNum => exact enableIrq_slave p h hhigh
  | disable irqNum => exact disableIrq_slave p h hhigh

end Calls

/-! ### The invariant -/

/-- The ports have the masks that are asked for, controller by controller. -/
structure PortsFollow (s : Irqs) : Prop where
  master : ∀ k < 8, bit (s.pic.ports Pic.pic1Data) k = !s.enabled k
  slave : ∀ k < 8, bit (s.pic.ports Pic.pic2Data) k = !s.enabled (k + 8)

private theorem masksFollow_iff (s : Irqs) : MasksFollow s ↔ PortsFollow s := by
  have hbool : ∀ a b : Bool, (a = false ↔ b = true) ↔ a = !b := by decide
  constructor
  · intro h
    refine ⟨fun k hk => ?_, fun k hk => ?_⟩
    · have hn := h k (by omega)
      rwa [Unmasked, if_pos hk, hbool] at hn
    · have hn := h (k + 8) (by omega)
      rwa [Unmasked, if_neg (by omega), Nat.add_sub_cancel, hbool] at hn
  · rintro ⟨hmaster, hslave⟩ n hn
    by_cases hlow : n < 8
    · rw [Unmasked, if_pos hlow, hbool]
      exact hmaster n hlow
    · have hk := hslave (n - 8) (by omega)
      rw [Nat.sub_add_cancel (by omega)] at hk
      rw [Unmasked, if_neg hlow, hbool]
      exact hk

/-- The mask of the master is the one in its port, and every slave interrupt that is disabled is masked in
`slave_mask`. -/
structure MasksOk (s : Irqs) : Prop where
  master : s.pic.ports Pic.pic1Data = s.pic.masterMask
  slave : ∀ k < 8, s.enabled (k + 8) = false → bit s.pic.slaveMask k = true

section Step

variable {s : Irqs} {call : PicCall}

/-- A call for a master interrupt goes right. -/
private theorem PortsFollow.callMaster (hports : PortsFollow s) (hok : MasksOk s) (h : call.irqNum ≤ 15)
    (hlow : call.irqNum.toNat < 8) : PortsFollow (s.after call) ∧ MasksOk (s.after call) := by
  have hcalled := call_master s.pic h hlow
  have hslave : ∀ k, (s.after call).enabled (k + 8) = s.enabled (k + 8) := fun k =>
    Function.update_of_ne (by omega) _ _
  refine ⟨⟨fun k hk => ?_, fun k hk => ?_⟩, hcalled.port, fun k hk hoff => ?_⟩
  · show bit ((s.pic.call call).ports Pic.pic1Data) k = !Function.update s.enabled call.irqNum.toNat call.enables k
    rw [hcalled.port, hcalled.bits k hk]
    by_cases hkn : k = call.irqNum.toNat
    · rw [if_pos hkn, hkn, Function.update_self]
    · rw [if_neg hkn, Function.update_of_ne hkn, ← hok.master, hports.master k hk]
  · rw [hslave]
    exact (congrArg (bit · k) hcalled.slavePort).trans (hports.slave k hk)
  · rw [hslave] at hoff
    exact hcalled.slaveBits k hk (hok.slave k hk hoff)

/-- A call for a slave interrupt goes right if the mask it writes is right for the others, and for its own if it is to
disable it. -/
private theorem PortsFollow.callSlave_iff (hports : PortsFollow s) (hok : MasksOk s) (h : call.irqNum ≤ 15)
    (hhigh : 8 ≤ call.irqNum.toNat) : PortsFollow (s.after call) ↔ WritesMasks s call := by
  have hcalled := call_slave s.pic h hhigh
  have hle := toNat_le h
  have hport : ∀ k < 8, bit ((s.after call).pic.ports Pic.pic2Data) k =
      if k + 8 = call.irqNum.toNat ∧ call.enables = true then false else bit s.pic.slaveMask k := fun k hk => by
    rw [← hcalled.bits k hk, ← hcalled.port]
    rfl
  constructor
  · intro hafter _
    refine ⟨fun n hlo hhi hne hon => ?_, fun hoff => ?_⟩
    · have hbit := hafter.slave (n - 8) (by omega)
      rw [hport _ (by omega), if_neg (by omega), Nat.sub_add_cancel hlo] at hbit
      rw [hbit]
      show (!Function.update s.enabled call.irqNum.toNat call.enables n) = false
      rw [Function.update_of_ne hne, hon, Bool.not_true]
    · have hbit := hafter.slave (call.irqNum.toNat - 8) (by omega)
      rw [hport _ (by omega), if_neg fun hc => Bool.false_ne_true (hoff.symm.trans hc.2),
        Nat.sub_add_cancel hhigh] at hbit
      rw [hbit]
      show (!Function.update s.enabled call.irqNum.toNat call.enables call.irqNum.toNat) = true
      rw [Function.update_self, hoff, Bool.not_false]
  · intro hwrites
    obtain ⟨hothers, hself⟩ := hwrites hhigh
    refine ⟨fun k hk => ?_, fun k hk => ?_⟩
    · have hmaster : (s.after call).enabled k = s.enabled k := Function.update_of_ne (by omega) _ _
      rw [hmaster]
      exact (congrArg (bit · k) hcalled.masterPort).trans (hports.master k hk)
    · rw [hport k hk]
      show _ = !Function.update s.enabled call.irqNum.toNat call.enables (k + 8)
      by_cases hkn : k + 8 = call.irqNum.toNat
      · rw [hkn, Function.update_self]
        cases henables : call.enables with
        | true => simp
        | false =>
          have hbit := hself henables
          rw [← hkn, Nat.add_sub_cancel] at hbit
          simp [hbit]
      · rw [if_neg fun hc => hkn hc.1, Function.update_of_ne hkn]
        cases hon : s.enabled (k + 8) with
        | true => exact hothers (k + 8) (by omega) (by omega) hkn hon
        | false => exact hok.slave k hk hon

private theorem MasksOk.callSlave (hok : MasksOk s) (h : call.irqNum ≤ 15) (hhigh : 8 ≤ call.irqNum.toNat)
    (hwrites : WritesMasks s call) : MasksOk (s.after call) := by
  have hcalled := call_slave s.pic h hhigh
  refine ⟨?_, fun k hk hoff => ?_⟩
  · exact hcalled.masterPort.trans (hok.master.trans hcalled.masterMask.symm)
  · have hon : ¬(k + 8 = call.irqNum.toNat ∧ call.enables = true) := by
      rintro ⟨hkn, henables⟩
      have htrue : (s.after call).enabled (k + 8) = true := by
        show Function.update s.enabled call.irqNum.toNat call.enables (k + 8) = true
        rw [hkn, Function.update_self, henables]
      exact Bool.false_ne_true (hoff.symm.trans htrue)
    refine (hcalled.bits k hk).trans ?_
    rw [if_neg hon]
    by_cases hkn : k + 8 = call.irqNum.toNat
    · have hbit := (hwrites hhigh).2 (Bool.eq_false_iff.2 fun henables => hon ⟨hkn, henables⟩)
      rwa [← hkn, Nat.add_sub_cancel] at hbit
    · have hsame : (s.after call).enabled (k + 8) = s.enabled (k + 8) := Function.update_of_ne hkn _ _
      rw [hsame] at hoff
      exact hok.slave k hk hoff

end Step

/-! ### Runs -/

/-- The controllers as the program is loaded, with anything in their ports. -/
def pic₀ (ports : Nat → UInt8) : Pic := { masterMask := 0xFB, slaveMask := 0xFF, ports := ports }

/-- After `i8259_init`, the line of the slave is enabled and no other one. -/
def irqs₀ (ports : Nat → UInt8) : Irqs := ⟨(pic₀ ports).i8259Init, fun n => decide (n = 2)⟩

private theorem irqs₀_ok (ports : Nat → UInt8) : PortsFollow (irqs₀ ports) ∧ MasksOk (irqs₀ ports) := by
  have hslave : (irqs₀ ports).pic.ports Pic.pic2Data = 0xFF := Pic.outb_port _ _ _
  have hmaster : (irqs₀ ports).pic.ports Pic.pic1Data = 0xFB :=
    (Pic.outb_other _ _ (by decide)).trans (Pic.outb_port _ _ _)
  have hbits : ∀ k < 8, bit 0xFB k = (!decide (k = 2)) ∧ bit 0xFF k = true := by decide
  refine ⟨⟨fun k hk => ?_, fun k hk => ?_⟩, hmaster, fun k hk _ => (hbits k hk).2⟩
  · rw [hmaster]
    exact (hbits k hk).1
  · rw [hslave, (hbits k hk).2]
    show true = !decide (k + 8 = 2)
    rw [decide_eq_false (by omega), Bool.not_false]

/-- The masks of the interrupts.  After `i8259_init`, along every sequence of calls of `enable_irq` and `disable_irq` in
which those for the slave write a mask that is right for every interrupt, an interrupt is unmasked exactly if the last
call for it has enabled it; and from there a call keeps this exactly when it meets the condition. -/
theorem pic_masks_iff {ports : Nat → UInt8} {calls : List PicCall} {s : Irqs}
    (hrun : Run (Guarded WritesMasks IrqStep) (irqs₀ ports) calls s) :
    MasksFollow s ∧ ∀ call t, IrqStep s call t → (MasksFollow t ↔ WritesMasks s call) := by
  obtain ⟨hports, hok⟩ := irqs₀_ok ports
  refine Run.guarded_exact (I := MasksOk) ?_ ?_ hrun hok ((masksFollow_iff _).2 hports)
  · rintro s call _ hs hq hwrites ⟨hle⟩
    by_cases hlow : call.irqNum.toNat < 8
    · exact (((masksFollow_iff s).1 hq).callMaster hs hle hlow).2
    · exact hs.callSlave hle (by omega) hwrites
  · rintro s call _ hs hq ⟨hle⟩
    rw [masksFollow_iff] at hq ⊢
    by_cases hlow : call.irqNum.toNat < 8
    · exact iff_of_true (hq.callMaster hs hle hlow).1 fun hhigh => by omega
    · exact hq.callSlave_iff hs hle (by omega)

instance (s : Irqs) (call : PicCall) : Decidable (WritesMasks s call) :=
  decidable_of_iff (8 ≤ call.irqNum.toNat →
    (∀ k : Fin 16, 8 ≤ k.val → k.val ≠ call.irqNum.toNat → s.enabled k = true → bit s.pic.slaveMask (k - 8) = false) ∧
    (call.enables = false → bit s.pic.slaveMask (call.irqNum.toNat - 8) = true)) <| by
  refine imp_congr Iff.rfl (and_congr ⟨fun h n hlo hhi => h ⟨n, hhi⟩ hlo, fun h k hlo => h k hlo k.isLt⟩ Iff.rfl)

/-- The calls of the kernel: the keyboard, the clock and the timer. -/
def kernelCalls : Irqs := (((irqs₀ fun _ => 0).after (.enable 1)).after (.enable 8)).after (.enable 0)

/-- After them the clock is unmasked. -/
theorem kernelCalls_masks :
    Unmasked kernelCalls.pic 8 ∧ MasksFollow kernelCalls ∧
      ∀ call t, IrqStep kernelCalls call t → (MasksFollow t ↔ WritesMasks kernelCalls call) := by
  have hrun : Run (Guarded WritesMasks IrqStep) (irqs₀ fun _ => 0)
      ([] ++ [.enable 1] ++ [.enable 8] ++ [.enable 0]) kernelCalls :=
    .snoc (.snoc (.snoc (.nil _) ⟨by decide, .call (by decide)⟩) ⟨by decide, .call (by decide)⟩)
      ⟨by decide, .call (by decide)⟩
  have hmasks := pic_masks_iff hrun
  exact ⟨(hmasks.1 8 (by decide)).2 rfl, hmasks⟩

/-- The clock is disabled, and stays unmasked; and with the clock enabled, `disable_irq(0)` and `enable_irq(9)` mask
it. -/
theorem disable_irq_misses_slave :
    let s := ((irqs₀ fun _ => 0).after (.enable 8)).after (.disable 8)
    let t := (((irqs₀ fun _ => 0).after (.enable 8)).after (.disable 0)).after (.enable 9)
    Run IrqStep (irqs₀ fun _ => 0) [.enable 8, .disable 8] s ∧ s.enabled 8 = false ∧ Unmasked s.pic 8 ∧
      Run IrqStep (irqs₀ fun _ => 0) [.enable 8, .disable 0, .enable 9] t ∧ t.enabled 8 = true ∧ ¬Unmasked t.pic 8 ∧
      ¬MasksFollow s ∧ ¬MasksFollow t := by
  intro s t
  have hrun : Run IrqStep (irqs₀ fun _ => 0) ([] ++ [.enable 8] ++ [.disable 8]) s :=
    .snoc (.snoc (.nil _) (.call (by decide))) (.call (by decide))
  have hrun' : Run IrqStep (irqs₀ fun _ => 0) ([] ++ [.enable 8] ++ [.disable 0] ++ [.enable 9]) t :=
    .snoc (.snoc (.snoc (.nil _) (.call (by decide))) (.call (by decide))) (.call (by decide))
  have hunmasked : Unmasked s.pic 8 := by
    unfold Unmasked
    decide +kernel
  have hmasked : ¬Unmasked t.pic 8 := by
    unfold Unmasked
    decide +kernel
  have hoff : s.enabled 8 = false := by decide +kernel
  have hon : t.enabled 8 = true := by decide +kernel
  refine ⟨hrun, hoff, hunmasked, hrun', hon, hmasked, fun hfollow => ?_, fun hfollow => ?_⟩
  · exact Bool.false_ne_true (hoff.symm.trans ((hfollow 8 (by decide)).1 hunmasked))
  · exact hmasked ((hfollow 8 (by decide)).2 hon)

end BigChungOS
