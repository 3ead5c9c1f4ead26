import BigChungOS.Lib.BitFields
import BigChungOS.Lib.Slots
import Mathlib.Data.Fintype.Basic
import Mathlib.Data.List.FinRange

/-!
# The descriptor tables (x86_desc.h, interrupt_handler.c, kernel.c)

The kernel fills the tables field by field, and the processor reads each entry as one word of 64 bits.  The gates it
finds in the IDT are those for the exceptions, the three devices and the system calls, with the addresses of their
handlers (`idt_gates`): a program can only enter the kernel through gate 0x80.  Every other entry is marked present,
too, with address 0.  In the GDT the processor finds the flat segments, and the TSS and the LDT at their addresses
(`gdt_segments`).  These are the words that `entry` stores; `ltr` then marks the TSS busy, and the loads of the segment
registers mark their segments accessed.
-/

namespace BigChungOS

open BitFields

/-! ### The processor -/

/-- A gate of the IDT as the processor reads it. -/
structure Gate where
  offset : Nat
  selector : Nat
  kind : Nat
  dpl : Nat
  present : Nat
  deriving DecidableEq

def readGate (q : Nat) : Gate where
  offset := field q 0 16 + 65536 * field q 48 16
  selector := field q 16 16
  kind := field q 40 5
  dpl := field q 45 2
  present := field q 47 1

/-- The kinds of gates: an interrupt gate clears the interrupt flag. -/
def interruptGate : Nat := 14
def trapGate : Nat := 15

/-- `int v` of a program enters through the gate; another gate is a general protection fault. -/
def Gate.OpenTo (g : Gate) (cpl : Nat) : Prop := g.present = 1 ∧ cpl ≤ g.dpl

/-- A segment of the GDT as the processor reads it. -/
structure Segment where
  base : Nat
  limit : Nat
  kind : Nat
  sys : Nat
  dpl : Nat
  present : Nat
  granularity : Nat
  deriving DecidableEq

def readSegment (q : Nat) : Segment where
  base := field q 16 24 + 16777216 * field q 56 8
  limit := field q 0 16 + 65536 * field q 48 4
  kind := field q 40 4
  sys := field q 44 1
  dpl := field q 45 2
  present := field q 47 1
  granularity := field q 55 1

/-! ### The IDT -/

/-- `idt_desc_t`, with its fields in the order of the source. -/
structure IdtDesc where
  offset1500 : BitVec 16
  segSelector : BitVec 16
  reserved4 : BitVec 8
  reserved3 : BitVec 1
  reserved2 : BitVec 1
  reserved1 : BitVec 1
  size : BitVec 1
  reserved0 : BitVec 1
  dpl : BitVec 2
  present : BitVec 1
  offset3116 : BitVec 16

/-- An entry in memory. -/
def IdtDesc.fields (d : IdtDesc) : List Field :=
  [⟨16, d.offset1500⟩, ⟨16, d.segSelector⟩, ⟨8, d.reserved4⟩, ⟨1, d.reserved3⟩, ⟨1, d.reserved2⟩, ⟨1, d.reserved1⟩,
    ⟨1, d.size⟩, ⟨1, d.reserved0⟩, ⟨2, d.dpl⟩, ⟨1, d.present⟩, ⟨16, d.offset3116⟩]

def IdtDesc.word (d : IdtDesc) : Nat := pack d.fields

abbrev Idt := Fin 256 → IdtDesc

/-- The functions in the table. -/
inductive Handler
  | exceptionC (n : Fin 20)
  | rtcAsm
  | pitAsm
  | keyboardAsm
  | sysCallHandlerAsm
  deriving DecidableEq

/-- The fields that `idt_setup` stores. -/
def idtFields (i : Fin 256) (d : IdtDesc) : IdtDesc :=
  let d : IdtDesc := { d with
    segSelector := 0x10, dpl := 0, reserved0 := 0, reserved1 := 1, reserved2 := 1, reserved3 := 0, reserved4 := 0,
    present := 1, size := 1 }
  if i = 128 then { d with dpl := 3, reserved0 := 0, reserved1 := 1, reserved2 := 1, reserved3 := 1, reserved4 := 0 }
  else d

/-- `idt_setup`. -/
def idtSetup (idt : Idt) (i : Fin 256) : Idt := Function.update idt i (idtFields i (idt i))

/-- `SET_IDT_ENTRY`. -/
def setIdtEntry (d : IdtDesc) (handler : BitVec 32) : IdtDesc :=
  { d with
    offset3116 := ((handler &&& 0xFFFF0000) >>> 16).setWidth 16
    offset1500 := (handler &&& 0xFFFF).setWidth 16 }

/-- The calls of `SET_IDT_ENTRY`, in their order. -/
def idtEntries : List (Fin 256 × Handler) :=
  (List.finRange 20).map (fun n => (⟨n.val, by omega⟩, .exceptionC n)) ++
    [(0x28, .rtcAsm), (0x20, .pitAsm), (0x21, .keyboardAsm), (128, .sysCallHandlerAsm)]

/-- `idt_vector`, with the addresses of the functions. -/
def idtVector (address : Handler → BitVec 32) (idt : Idt) : Idt :=
  let idt := (List.finRange 256).foldl idtSetup idt
  idtEntries.foldl (fun idt e => Function.update idt e.1 (setIdtEntry (idt e.1) (address e.2))) idt

/-- An entry of the table before, with zeros. -/
def idtZero : IdtDesc :=
  { offset1500 := 0, segSelector := 0, reserved4 := 0, reserved3 := 0, reserved2 := 0, reserved1 := 0, size := 0,
    reserved0 := 0, dpl := 0, present := 0, offset3116 := 0 }

/-- The function that is to handle a vector. -/
def handlerOf (v : Fin 256) : Option Handler :=
  if h : v.val < 20 then some (.exceptionC ⟨v.val, h⟩)
  else if v = 0x20 then some .pitAsm
  else if v = 0x21 then some .keyboardAsm
  else if v = 0x28 then some .rtcAsm
  else if v = 0x80 then some .sysCallHandlerAsm
  else none

/-! #### The gates -/

section Gates

/-- What the processor reads of an entry. -/
private theorem readGate_word (d : IdtDesc) :
    readGate d.word = ⟨d.offset1500.toNat + 65536 * d.offset3116.toNat, d.segSelector.toNat,
      pack [⟨1, d.reserved3⟩, ⟨1, d.reserved2⟩, ⟨1, d.reserved1⟩, ⟨1, d.size⟩, ⟨1, d.reserved0⟩], d.dpl.toNat,
      d.present.toNat⟩ := by
  have hlow : field (pack d.fields) 0 16 = d.offset1500.toNat := field_at d.fields 0 0 rfl rfl
  have hselector : field (pack d.fields) 16 16 = d.segSelector.toNat := field_at d.fields 16 1 rfl rfl
  have hkind : field (pack d.fields) 40 5 = pack [⟨1, d.reserved3⟩, ⟨1, d.reserved2⟩, ⟨1, d.reserved1⟩, ⟨1, d.size⟩,
    ⟨1, d.reserved0⟩] := field_slice d.fields 40 5 3 5 rfl rfl
  have hdpl : field (pack d.fields) 45 2 = d.dpl.toNat := field_at d.fields 45 8 rfl rfl
  have hpresent : field (pack d.fields) 47 1 = d.present.toNat := field_at d.fields 47 9 rfl rfl
  have hhigh : field (pack d.fields) 48 16 = d.offset3116.toNat := field_at d.fields 48 10 rfl rfl
  rw [IdtDesc.word, readGate, hlow, hselector, hkind, hdpl, hpresent, hhigh]

/-- A part of a value that is masked, shifted and stored in a field of `w` bits. -/
private theorem masked_field (a mask : BitVec 32) (k w : Nat) (hmask : ∀ i : Fin w, mask.getLsbD (k + i) = true) :
    (((a &&& mask) >>> k).setWidth w).toNat = field a.toNat k w := by
  have hsame : ((a &&& mask) >>> k).setWidth w = (a >>> k).setWidth w := by
    refine BitVec.eq_of_getLsbD_eq fun i hi => ?_
    rw [BitVec.getLsbD_setWidth, BitVec.getLsbD_setWidth, BitVec.getLsbD_ushiftRight, BitVec.getLsbD_ushiftRight,
      BitVec.getLsbD_and, hmask ⟨i, hi⟩, Bool.and_true]
  rw [hsame, BitVec.toNat_setWidth, BitVec.toNat_ushiftRight, Nat.shiftRight_eq_div_pow, field]

private theorem masked_field_zero (a mask : BitVec 32) (w : Nat) (hmask : ∀ i : Fin w, mask.getLsbD i = true) :
    ((a &&& mask).setWidth w).toNat = field a.toNat 0 w := by
  have hfield := masked_field a mask 0 w (by simpa using hmask)
  rwa [BitVec.ushiftRight_zero] at hfield

/-- The two halves of an address. -/
private theorem address_halves (a : BitVec 32) :
    ((a &&& 0xFFFF).setWidth 16).toNat + 65536 * (((a &&& 0xFFFF0000) >>> 16).setWidth 16).toNat = a.toNat := by
  have ha := a.isLt
  rw [masked_field_zero a 0xFFFF 16 (by decide), masked_field a 0xFFFF0000 16 16 (by decide)]
  unfold field
  omega

/-- The gate that the processor is to find. -/
def gateOf (address : Handler → BitVec 32) (v : Fin 256) : Gate where
  offset := ((handlerOf v).map fun f => (address f).toNat).getD 0
  selector := 0x10
  kind := if v = 0x80 then trapGate else interruptGate
  dpl := if v = 0x80 then 3 else 0
  present := 1

private theorem idtEntries_handlerOf (v : Fin 256) :
    ((handlerOf v).elim (v ∉ idtEntries.map Prod.fst) fun f => (v, f) ∈ idtEntries) := by
  have hall : ∀ v : Fin 256, ((handlerOf v).elim (decide (v ∉ idtEntries.map Prod.fst)) fun f =>
      decide ((v, f) ∈ idtEntries)) = true := by decide +kernel
  have hv := hall v
  cases hhandler : handlerOf v with
  | none =>
    rw [hhandler, Option.elim_none] at hv
    rw [Option.elim_none]
    exact of_decide_eq_true hv
  | some f =>
    rw [hhandler, Option.elim_some] at hv
    rw [Option.elim_some]
    exact of_decide_eq_true hv

private theorem idtEntries_nodup : (idtEntries.map Prod.fst).Nodup := by decide +kernel

/-- An entry of the table after both loops. -/
private theorem idtVector_apply (address : Handler → BitVec 32) (idt : Idt) (v : Fin 256) :
    idtVector address idt v =
      (handlerOf v).elim (idtFields v (idt v)) fun f => setIdtEntry (idtFields v (idt v)) (address f) := by
  have hsetup : (List.finRange 256).foldl idtSetup idt v = idtFields v (idt v) :=
    Slots.foldl_update_of_mem (g := id) (f := idtFields) (by rw [List.map_id]; exact List.nodup_finRange 256)
      (List.mem_finRange v)
  have hentries := idtEntries_handlerOf v
  unfold idtVector
  cases hv : handlerOf v with
  | none =>
    rw [hv] at hentries
    have hkept := Slots.foldl_update_of_not_mem (g := Prod.fst) (m := (List.finRange 256).foldl idtSetup idt)
      (f := fun (e : Fin 256 × Handler) d => setIdtEntry d (address e.2)) hentries
    exact hkept.trans hsetup
  | some f =>
    rw [hv] at hentries
    have hset := Slots.foldl_update_of_mem (g := Prod.fst) (m := (List.finRange 256).foldl idtSetup idt)
      (f := fun (e : Fin 256 × Handler) d => setIdtEntry d (address e.2)) idtEntries_nodup hentries
    exact hset.trans (congrArg (setIdtEntry · (address f)) hsetup)

theorem readGate_idtVector (address : Handler → BitVec 32) (v : Fin 256) :
    readGate (idtVector address (fun _ => idtZero) v).word = gateOf address v := by
  have hfields : pack [⟨1, (idtFields v idtZero).reserved3⟩, ⟨1, (idtFields v idtZero).reserved2⟩,
        ⟨1, (idtFields v idtZero).reserved1⟩, ⟨1, (idtFields v idtZero).size⟩, ⟨1, (idtFields v idtZero).reserved0⟩] =
      (gateOf address v).kind ∧
      (idtFields v idtZero).dpl.toNat = (gateOf address v).dpl ∧ (idtFields v idtZero).segSelector = 0x10 ∧
      (idtFields v idtZero).present = 1 ∧ (idtFields v idtZero).offset1500 = 0 ∧
      (idtFields v idtZero).offset3116 = 0 := by
    unfold gateOf idtFields
    by_cases hv : v = 128
    · simp only [if_pos hv]
      exact ⟨rfl, rfl, trivial, trivial, rfl, rfl⟩
    · simp only [if_neg hv]
      exact ⟨rfl, rfl, trivial, trivial, rfl, rfl⟩
  obtain ⟨hkind, hdpl, hselector, hpresent, hlow, hhigh⟩ := hfields
  rw [readGate_word, idtVector_apply]
  cases hv : handlerOf v with
  | none =>
    have hoffset : (gateOf address v).offset = 0 := by
      unfold gateOf
      rw [hv]
      rfl
    simp only [Option.elim_none, hkind, hdpl, hselector, hpresent, hlow, hhigh]
    show _ = Gate.mk (gateOf address v).offset _ _ _ _
    rw [hoffset]
    rfl
  | some f =>
    have hoffset : (gateOf address v).offset = (address f).toNat := by
      unfold gateOf
      rw [hv]
      rfl
    have haddress : (setIdtEntry (idtFields v idtZero) (address f)).offset1500.toNat +
        65536 * (setIdtEntry (idtFields v idtZero) (address f)).offset3116.toNat = (address f).toNat :=
      address_halves _
    rw [Option.elim_some, haddress, ← hoffset]
    simp only [setIdtEntry, hkind, hdpl, hselector, hpresent]
    rfl

end Gates

/-- The IDT that `idt_vector` builds, read by the processor: each vector has an interrupt gate into the kernel's code
that only the kernel may use, but for the trap gate of the system calls, which is open to programs; and the gate leads
to the function of the vector. -/
theorem idt_gates (address : Handler → BitVec 32) (v : Fin 256) :
    readGate (idtVector address (fun _ => idtZero) v).word = gateOf address v ∧
      ((readGate (idtVector address (fun _ => idtZero) v).word).OpenTo 3 ↔ v = 0x80) := by
  rw [readGate_idtVector]
  refine ⟨rfl, ?_⟩
  unfold Gate.OpenTo gateOf
  by_cases hv : v = 0x80
  · simp [hv]
  · simp [hv]

/-! ### The GDT -/

/-- `seg_desc_t`, with its fields in the order of the source. -/
structure SegDesc where
  segLim1500 : BitVec 16
  base1500 : BitVec 16
  base2316 : BitVec 8
  kind : BitVec 4
  sys : BitVec 1
  dpl : BitVec 2
  present : BitVec 1
  segLim1916 : BitVec 4
  avail : BitVec 1
  reserved : BitVec 1
  opsize : BitVec 1
  granularity : BitVec 1
  base3124 : BitVec 8

def SegDesc.fields (d : SegDesc) : List Field :=
  [⟨16, d.segLim1500⟩, ⟨16, d.base1500⟩, ⟨8, d.base2316⟩, ⟨4, d.kind⟩, ⟨1, d.sys⟩, ⟨2, d.dpl⟩, ⟨1, d.present⟩,
    ⟨4, d.segLim1916⟩, ⟨1, d.avail⟩, ⟨1, d.reserved⟩, ⟨1, d.opsize⟩, ⟨1, d.granularity⟩, ⟨8, d.base3124⟩]

def SegDesc.word (d : SegDesc) : Nat := pack d.fields

/-- `SET_LDT_PARAMS` and `SET_TSS_PARAMS`, which are the same. -/
def setParams (d : SegDesc) (addr lim : BitVec 32) : SegDesc :=
  { d with
    base3124 := ((addr &&& 0xFF000000) >>> 24).setWidth 8
    base2316 := ((addr &&& 0x00FF0000) >>> 16).setWidth 8
    base1500 := (addr &&& 0x0000FFFF).setWidth 16
    segLim1916 := ((lim &&& 0x000F0000) >>> 16).setWidth 4
    segLim1500 := (lim &&& 0x0000FFFF).setWidth 16 }

/-- `the_ldt_desc`, over what stands in it at first. -/
def theLdtDesc (d : SegDesc) (ldt ldtSize : BitVec 32) : SegDesc :=
  setParams { d with
    granularity := 0, opsize := 1, reserved := 0, avail := 0, present := 1, dpl := 0, sys := 0, kind := 2 } ldt ldtSize

/-- `the_tss_desc`. -/
def theTssDesc (d : SegDesc) (tss tssSize : BitVec 32) : SegDesc :=
  setParams { d with
    granularity := 0, opsize := 0, reserved := 0, avail := 0, segLim1916 := (104 &&& 0x000F0000 : BitVec 32).setWidth 4,
    present := 1, dpl := 0, sys := 0, kind := 9, segLim1500 := (104 &&& 0x0000FFFF : BitVec 32).setWidth 16 }
    tss tssSize

/-- The GDT of x86_desc.S, after `entry` has put in the last two entries. -/
def gdt (tssDesc ldtDesc : SegDesc) : List Nat :=
  [0, 0, 0x00CF9A000000FFFF, 0x00CF92000000FFFF, 0x00CFFA000000FFFF, 0x00CFF2000000FFFF, tssDesc.word, ldtDesc.word]

section Segments

/-- What the processor reads of an entry. -/
private theorem readSegment_word (d : SegDesc) :
    readSegment d.word = ⟨d.base1500.toNat + 65536 * d.base2316.toNat + 16777216 * d.base3124.toNat,
      d.segLim1500.toNat + 65536 * d.segLim1916.toNat, d.kind.toNat, d.sys.toNat, d.dpl.toNat, d.present.toNat,
      d.granularity.toNat⟩ := by
  have hlimit : field (pack d.fields) 0 16 = d.segLim1500.toNat := field_at d.fields 0 0 rfl rfl
  have hbase : field (pack d.fields) 16 24 = d.base1500.toNat + 65536 * d.base2316.toNat :=
    (field_slice d.fields 16 24 1 2 rfl rfl).trans (by simp [pack, SegDesc.fields])
  have hkind : field (pack d.fields) 40 4 = d.kind.toNat := field_at d.fields 40 3 rfl rfl
  have hsys : field (pack d.fields) 44 1 = d.sys.toNat := field_at d.fields 44 4 rfl rfl
  have hdpl : field (pack d.fields) 45 2 = d.dpl.toNat := field_at d.fields 45 5 rfl rfl
  have hpresent : field (pack d.fields) 47 1 = d.present.toNat := field_at d.fields 47 6 rfl rfl
  have hhigh : field (pack d.fields) 48 4 = d.segLim1916.toNat := field_at d.fields 48 7 rfl rfl
  have hgranularity : field (pack d.fields) 55 1 = d.granularity.toNat := field_at d.fields 55 11 rfl rfl
  have htop : field (pack d.fields) 56 8 = d.base3124.toNat := field_at d.fields 56 12 rfl rfl
  rw [SegDesc.word, readSegment, hlimit, hbase, hkind, hsys, hdpl, hpresent, hhigh, hgranularity, htop]

/-- An address and a limit of at most 20 bits are found again. -/
private theorem readSegment_setParams (d : SegDesc) (addr : BitVec 32) {lim : BitVec 32} (hlim : lim.toNat < 1048576) :
    readSegment (setParams d addr lim).word =
      ⟨addr.toNat, lim.toNat, d.kind.toNat, d.sys.toNat, d.dpl.toNat, d.present.toNat, d.granularity.toNat⟩ := by
  have haddr := addr.isLt
  rw [readSegment_word]
  simp only [setParams]
  rw [masked_field addr 0xFF000000 24 8 (by decide), masked_field addr 0x00FF0000 16 8 (by decide),
    masked_field_zero addr 0x0000FFFF 16 (by decide), masked_field lim 0x000F0000 16 4 (by decide),
    masked_field_zero lim 0x0000FFFF 16 (by decide)]
  have hbase : field addr.toNat 0 16 + 65536 * field addr.toNat 16 8 + 16777216 * field addr.toNat 24 8 =
      addr.toNat := by
    unfold field
    omega
  have hlimit : field lim.toNat 0 16 + 65536 * field lim.toNat 16 4 = lim.toNat := by
    unfold field
    omega
  rw [hbase, hlimit]

end Segments

/-- The GDT from its third entry on, as `entry` stores it and the processor reads it, before `ltr` and the loads of the
segment registers set the busy and accessed bits: flat segments for the kernel and for programs, the TSS and the LDT,
wherever they are and whatever stood in the variables that the two descriptors were built in. -/
theorem gdt_segments (d d' : SegDesc) (tss ldt : BitVec 32) :
    ((gdt (theTssDesc d tss 103) (theLdtDesc d' ldt 31)).drop 2).map readSegment =
      [⟨0, 0xFFFFF, 10, 1, 0, 1, 1⟩, ⟨0, 0xFFFFF, 2, 1, 0, 1, 1⟩, ⟨0, 0xFFFFF, 10, 1, 3, 1, 1⟩,
        ⟨0, 0xFFFFF, 2, 1, 3, 1, 1⟩, ⟨tss.toNat, 103, 9, 0, 0, 1, 0⟩, ⟨ldt.toNat, 31, 2, 0, 0, 1, 0⟩] := by
  have hflat : [0x00CF9A000000FFFF, 0x00CF92000000FFFF, 0x00CFFA000000FFFF, 0x00CFF2000000FFFF].map readSegment =
      [⟨0, 0xFFFFF, 10, 1, 0, 1, 1⟩, ⟨0, 0xFFFFF, 2, 1, 0, 1, 1⟩, ⟨0, 0xFFFFF, 10, 1, 3, 1, 1⟩,
        ⟨0, 0xFFFFF, 2, 1, 3, 1, 1⟩] := by decide
  have htss : readSegment (theTssDesc d tss 103).word = ⟨tss.toNat, 103, 9, 0, 0, 1, 0⟩ :=
    readSegment_setParams _ tss (by decide)
  have hldt : readSegment (theLdtDesc d' ldt 31).word = ⟨ldt.toNat, 31, 2, 0, 0, 1, 0⟩ :=
    readSegment_setParams _ ldt (by decide)
  simp only [gdt, List.drop_succ_cons, List.drop_zero, List.map_cons, List.map_nil, List.cons.injEq] at hflat ⊢
  exact ⟨hflat.1, hflat.2.1, hflat.2.2.1, hflat.2.2.2.1, htss, hldt, trivial⟩

end BigChungOS
