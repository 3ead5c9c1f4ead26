import BigChungOS.Lib.InterruptController
import BigChungOS.DescriptorTables
import BigChungOS.Pic

/-!
# The delivery of the interrupts (i8259.c, new_link.S, rtc.c, keyboard.c, sched.c)

The controllers hold an interrupt back until the one in service has been acknowledged by `send_eoi`; so a handler that
leaves out an acknowledgement, or the one for the wrong chip, would stop a device for good.  Here the writes of the
driver go to the two chips (`Board`), and the handlers run as sequences of the operations that the chips, the interrupt
flag and the kernel stacks see (`HandlerOp`), between requests of the devices at any time.

A handler is entered with interrupts off, and acknowledges its interrupt before they come on again.  So whenever they
are on, nothing is in service, and only the three devices are ever served, each by its own handler
(`interrupts_served`).  What is left of a boot tick when its shell halts, if its frame still stands, may run with
interrupts on: it acknowledges the timer once more, when nothing is in service.  And a request is kept until it is
served, which for the three devices it can be from every state (`requests_served`).
-/

namespace BigChungOS

open Bits Transition InterruptController

/-! ### The driver and the chips -/

/-- The controllers with their driver. -/
structure Board where
  pic : Pic
  chips : Pair

/-- A write to a port, as the chips see it. -/
def portOut (p : Pair) (v : UInt8) (port : Nat) : Pair :=
  if port = Pic.pic1Command then { p with master := p.master.command v }
  else if port = Pic.pic1Data then { p with master := p.master.data v }
  else if port = Pic.pic2Command then { p with slave := p.slave.command v }
  else if port = Pic.pic2Data then { p with slave := p.slave.data v }
  else p

namespace Board

/-- `outb(v, port)`. -/
def outb (b : Board) (v : UInt8) (port : Nat) : Board := ⟨b.pic.outb v port, portOut b.chips v port⟩

/-- `i8259_init`. -/
def i8259Init (b : Board) : Board :=
  let b := b.outb b.pic.masterMask Pic.pic1Data
  let b := b.outb b.pic.slaveMask Pic.pic2Data
  let b := b.outb 0x11 Pic.pic1Command
  let b := b.outb 0x20 Pic.pic1Data
  let b := b.outb 0x04 Pic.pic1Data
  let b := b.outb 0x01 Pic.pic1Data
  let b := b.outb 0x11 Pic.pic2Command
  let b := b.outb 0x28 Pic.pic2Data
  let b := b.outb 0x02 Pic.pic2Data
  let b := b.outb 0x01 Pic.pic2Data
  let b := b.outb b.pic.masterMask Pic.pic1Data
  b.outb b.pic.slaveMask Pic.pic2Data

/-- `enable_irq`. -/
def enableIrq (b : Board) (irqNum : UInt32) : Board :=
  if irqNum > 15 then b
  else
    let mask : UInt32 := ~~~(1 <<< irqNum)
    if irqNum ≥ 8 then
      let unmask : UInt32 := ~~~(1 <<< (irqNum - 8))
      let b := { b with pic := { b.pic with slaveMask := (b.pic.slaveMask.toUInt32 &&& unmask).toUInt8 } }
      b.outb b.pic.slaveMask Pic.pic2Data
    else
      let b := { b with pic := { b.pic with masterMask := (b.pic.masterMask.toUInt32 &&& mask).toUInt8 } }
      b.outb b.pic.masterMask Pic.pic1Data

theorem i8259Init_pic (b : Board) : b.i8259Init.pic = b.pic.i8259Init := rfl

theorem enableIrq_pic (b : Board) (irqNum : UInt32) : (b.enableIrq irqNum).pic = b.pic.enableIrq irqNum := by
  unfold enableIrq Pic.enableIrq
  dsimp only
  split_ifs <;> rfl

end Board

/-- The chip after its initialization, with these masks. -/
def initialized (base cascade mask : UInt8) : Chip where
  phase := .ready
  icw1 := 0x11
  base := base
  cascade := cascade
  autoEoi := false
  masked := bit mask
  requested := fun _ => false
  inService := fun _ => false

/-- The four words, and the mask. -/
private theorem initialize_chip (c : Chip) (icw2 icw3 mask : UInt8) :
    ((((c.command 0x11).data icw2).data icw3).data 0x01).data mask = initialized (icw2 &&& 0xF8) icw3 mask := by
  have hicw1 : bit 0x11 4 = true ∧ bit 0x11 1 = false ∧ bit 0x11 0 = true ∧ bit 0x01 1 = false := by decide
  obtain ⟨hreset, hsingle, hicw4, hauto⟩ := hicw1
  simp [Chip.command, Chip.data, Chip.phaseAfter, initialized, hreset, hsingle, hicw4, hauto]

/-- Whatever state the chips are in, `i8259_init` sets them up. -/
private theorem i8259Init_chips (b : Board) :
    b.i8259Init.chips = ⟨initialized 0x20 0x04 b.pic.masterMask, initialized 0x28 0x02 b.pic.slaveMask⟩ := by
  have hmaster := initialize_chip (b.chips.master.data b.pic.masterMask) 0x20 0x04 b.pic.masterMask
  have hslave := initialize_chip (b.chips.slave.data b.pic.slaveMask) 0x28 0x02 b.pic.slaveMask
  simp only [Board.i8259Init, Board.outb, portOut, Pic.outb, Pic.pic1Command, Pic.pic1Data, Pic.pic2Command,
    Pic.pic2Data, if_true, Nat.reduceEqDiff, if_false, hmaster, hslave]
  rfl

/-! ### The handlers -/

/-- What the chips, the interrupt flag and the kernel stacks see of a handler. -/
inductive HandlerOp
  | outb (v : UInt8) (port : Nat)
  | cli
  | sti
  | iret
  /-- `pit_handler` stores its stack in a PCB, and takes the stack to return on from one. -/
  | saveStack
  | loadStack
  /-- `sys_execute` leaves for the program, or by an exception; a halt goes on behind it. -/
  | leave
  deriving DecidableEq

/-- `send_eoi`. -/
def sendEoi (irqNum : UInt32) : List HandlerOp :=
  if irqNum ≥ 8 then
    [.outb (0x60 ||| (irqNum - 8)).toUInt8 Pic.pic2Command, .outb (0x60 ||| 2) Pic.pic1Command]
  else [.outb (0x60 ||| irqNum).toUInt8 Pic.pic1Command]

/-- The ways through `pit_handler`: one of the first three ticks, which launches its shell or not, or a later one. -/
inductive TickWay
  | launched
  | failed
  | late
  deriving DecidableEq

/-- `handle_rtc`. -/
def handleRtcOps : List HandlerOp := .cli :: (sendEoi 8 ++ [.sti])

/-- `keyboard_handler`. -/
def keyboardHandlerOps : List HandlerOp := sendEoi 1

/-- `pit_handler`; `sys_execute` starts with `cli`. -/
def pitHandlerOps : TickWay → List HandlerOp
  | .launched => .saveStack :: (sendEoi 0 ++ .cli :: .leave :: .loadStack :: sendEoi 0)
  | .failed => .saveStack :: (sendEoi 0 ++ .cli :: .loadStack :: sendEoi 0)
  | .late => .saveStack :: .loadStack :: sendEoi 0

/-- `rtc_asm`, `keyboard_asm` and `pit_asm`. -/
inductive HandlerRuns : Handler → List HandlerOp → Prop
  | rtcAsm : HandlerRuns .rtcAsm (handleRtcOps ++ [.iret])
  | keyboardAsm : HandlerRuns .keyboardAsm (keyboardHandlerOps ++ [.iret])
  | pitAsm (tick : TickWay) : HandlerRuns .pitAsm (pitHandlerOps tick ++ [.iret])

/-! ### The machine -/

/-- The handlers that a stack holds are those that have been interrupted, with what they still have to do. -/
abbrev HandlerFrames := List (List HandlerOp)

/-- The controllers, the interrupt flag, the stack in use, the stacks that ticks have saved, and those that boot ticks
have left for their shells. -/
structure IrqMachine where
  board : Board
  flag : Bool
  stack : HandlerFrames
  saved : List HandlerFrames
  left : List HandlerFrames

inductive IrqEvent
  | request (n : Nat)
  | accept (n : Nat)
  | op
  | flag (b : Bool)
  | resume
  | enable (irqNum : UInt32)

/-- The next operation of the handler in progress: `ops` is what it has to do after it, and `frames` what the stack
holds below it. -/
inductive HandlerStep (m : IrqMachine) (ops : List HandlerOp) (frames : HandlerFrames) : HandlerOp → IrqMachine → Prop
  | outb {v : UInt8} {port : Nat} :
      HandlerStep m ops frames (.outb v port) { m with board := m.board.outb v port, stack := ops :: frames }
  | cli : HandlerStep m ops frames .cli { m with flag := false, stack := ops :: frames }
  | sti : HandlerStep m ops frames .sti { m with flag := true, stack := ops :: frames }
  /-- The interrupted code had interrupts on. -/
  | iret : HandlerStep m ops frames .iret { m with flag := true, stack := frames }
  | saveStack : HandlerStep m ops frames .saveStack { m with stack := ops :: frames, saved := frames :: m.saved }
  | loadStack {loaded : HandlerFrames} (h : loaded ∈ frames :: m.saved) :
      HandlerStep m ops frames .loadStack { m with stack := ops :: loaded }
  | leave : HandlerStep m ops frames .leave { m with stack := [], left := (ops :: frames) :: m.left }

/-- A device requests an interrupt; the processor accepts one, through its gate; a handler goes on; or, with no handler
in progress, a program or the kernel sets the flag, the shell of a boot tick halts and the tick goes on, or the kernel
enables one of its three interrupts. -/
inductive IrqMachineStep (address : Handler → BitVec 32) : IrqMachine → IrqEvent → IrqMachine → Prop
  | request {m : IrqMachine} {n : Nat} (hn : n < 16) (hline : n ≠ slaveLine) :
      IrqMachineStep address m (.request n) { m with board.chips := m.board.chips.raise n }
  | accept {m : IrqMachine} {n : Nat} {v : UInt8} {chips : Pair} {f : Handler} {ops : List HandlerOp}
      (hflag : m.flag = true) (hack : m.board.chips.acknowledge = some (n, v, chips))
      (hhandler : handlerOf v.toFin = some f) (hruns : HandlerRuns f ops) :
      IrqMachineStep address m (.accept n)
        { m with
          board.chips := chips
          flag := decide ((readGate (idtVector address (fun _ => idtZero) v.toFin).word).kind = trapGate)
          stack := ops :: m.stack }
  | op {m m' : IrqMachine} {o : HandlerOp} {ops : List HandlerOp} {frames : HandlerFrames}
      (hstack : m.stack = (o :: ops) :: frames) (h : HandlerStep m ops frames o m') : IrqMachineStep address m .op m'
  | flag {m : IrqMachine} (b : Bool) (hstack : m.stack = []) : IrqMachineStep address m (.flag b) { m with flag := b }
  | resume {m : IrqMachine} {frames : HandlerFrames} {before after : List HandlerFrames} (hstack : m.stack = [])
      (hleft : m.left = before ++ frames :: after) :
      IrqMachineStep address m .resume { m with stack := frames, left := before ++ after }
  | enable {m : IrqMachine} {irqNum : UInt32} (hstack : m.stack = []) (h : irqNum = 0 ∨ irqNum = 1 ∨ irqNum = 8) :
      IrqMachineStep address m (.enable irqNum) { m with board := m.board.enableIrq irqNum }

/-- The state when `entry` turns interrupts on: `init_rtc` and `init_keyboard` have enabled theirs. -/
def irqBooted (ports : Nat → UInt8) (chips : Pair) : IrqMachine where
  board := ((Board.i8259Init ⟨pic₀ ports, chips⟩).enableIrq 8).enableIrq 1
  flag := false
  stack := []
  saved := []
  left := []

/-! ### Acknowledgements -/

/-- The byte is a specific end of interrupt, for a command port. -/
structure Acknowledges (v : UInt8) (port n : Nat) : Prop where
  line : n < 8
  byte : v = 0x60 ||| UInt8.ofNat n
  port : port = Pic.pic1Command ∨ port = Pic.pic2Command

/-- The end of a handler whose interrupt has been acknowledged: it returns, or it is the rest of a boot tick, which
loads a stack and acknowledges the timer before it returns. -/
def AtRest (ops : List HandlerOp) : Prop :=
  ops = [.iret] ∨ ops = sendEoi 0 ++ [.iret] ∨ ops = .loadStack :: (sendEoi 0 ++ [.iret])

/-- The operations acknowledge everything in service before interrupts come on. -/
def Settles : List HandlerOp → Pair → Prop
  | [], _ => False
  | .outb v port :: ops, p => (∃ n, Acknowledges v port n) ∧ Settles ops (portOut p v port)
  | .cli :: ops, p | .saveStack :: ops, p | .loadStack :: ops, p => Settles ops p
  | .sti :: ops, p | .leave :: ops, p => p.Idle ∧ AtRest ops
  | .iret :: _, p => p.Idle

section Settles

variable {p : Pair} {v : UInt8} {port n : Nat}

private theorem portOut_acknowledges (h : Acknowledges v port n) :
    portOut p v port = if port = Pic.pic1Command then { p with master := p.master.endOfInterrupt n }
      else { p with slave := p.slave.endOfInterrupt n } := by
  obtain ⟨hn, rfl, rfl | rfl⟩ := h
  · rw [if_pos rfl, portOut, if_pos rfl, Chip.command_eoi _ hn]
  · rw [if_neg (by decide), portOut, if_neg (by decide), if_neg (by decide), if_pos rfl, Chip.command_eoi _ hn]

private theorem portOut_raise (h : Acknowledges v port n) (m : Nat) :
    portOut (p.raise m) v port = (portOut p v port).raise m := by
  rw [portOut_acknowledges h, portOut_acknowledges h]
  unfold Pair.raise
  split_ifs <;> rfl

private theorem idle_raise (n : Nat) : (p.raise n).Idle ↔ p.Idle := by
  unfold Pair.raise
  split_ifs
  · exact ⟨fun h => ⟨h.master, h.slave⟩, fun h => ⟨h.master, h.slave⟩⟩
  · exact ⟨fun h => ⟨h.master, h.slave⟩, fun h => ⟨h.master, h.slave⟩⟩

/-- A request in the middle of a handler changes nothing for it. -/
theorem Settles.raise {ops : List HandlerOp} (h : Settles ops p) (m : Nat) : Settles ops (p.raise m) := by
  induction ops generalizing p with
  | nil => exact h
  | cons o ops ih =>
    cases o with
    | outb v port =>
      obtain ⟨⟨n, hack⟩, hrest⟩ := h
      refine ⟨⟨n, hack⟩, ?_⟩
      rw [portOut_raise hack]
      exact ih hrest
    | cli | saveStack | loadStack => exact ih h
    | sti | leave => exact ⟨(idle_raise m).2 h.1, h.2⟩
    | iret => exact (idle_raise m).2 h

private theorem sendEoi_master : sendEoi 0 = [.outb (0x60 ||| UInt8.ofNat 0) Pic.pic1Command] ∧
    sendEoi 1 = [.outb (0x60 ||| UInt8.ofNat 1) Pic.pic1Command] := by decide

private theorem sendEoi_slave : sendEoi 8 =
    [.outb (0x60 ||| UInt8.ofNat 0) Pic.pic2Command, .outb (0x60 ||| UInt8.ofNat slaveLine) Pic.pic1Command] := by
  decide

private theorem settles_outb_master {ops : List HandlerOp} (hn : n < 8)
    (h : Settles ops { p with master := p.master.endOfInterrupt n }) :
    Settles (.outb (0x60 ||| UInt8.ofNat n) Pic.pic1Command :: ops) p := by
  have hack : Acknowledges (0x60 ||| UInt8.ofNat n) Pic.pic1Command n := ⟨hn, rfl, .inl rfl⟩
  refine ⟨⟨n, hack⟩, ?_⟩
  rw [portOut_acknowledges hack, if_pos rfl]
  exact h

private theorem settles_outb_slave {ops : List HandlerOp} (hn : n < 8)
    (h : Settles ops { p with slave := p.slave.endOfInterrupt n }) :
    Settles (.outb (0x60 ||| UInt8.ofNat n) Pic.pic2Command :: ops) p := by
  have hack : Acknowledges (0x60 ||| UInt8.ofNat n) Pic.pic2Command n := ⟨hn, rfl, .inr rfl⟩
  refine ⟨⟨n, hack⟩, ?_⟩
  rw [portOut_acknowledges hack, if_neg (by decide)]
  exact h

/-- An acknowledgement finds nothing in service. -/
private theorem idle_endOfInterrupt {c : Chip} (h : c.Idle) (n : Nat) : (c.endOfInterrupt n).Idle := by
  unfold Chip.Idle at h ⊢
  simp [Chip.endOfInterrupt, h]

private theorem idle_acknowledges (h : Acknowledges v port n) (hidle : p.Idle) : (portOut p v port).Idle := by
  rw [portOut_acknowledges h]
  split_ifs
  · exact ⟨idle_endOfInterrupt hidle.master n, hidle.slave⟩
  · exact ⟨hidle.master, idle_endOfInterrupt hidle.slave n⟩

private theorem settles_rest (hidle : p.Idle) : Settles (.loadStack :: (sendEoi 0 ++ [.iret])) p := by
  rw [sendEoi_master.1]
  exact settles_outb_master (by decide) ⟨idle_endOfInterrupt hidle.master 0, hidle.slave⟩

/-- With nothing in service, what is at rest has nothing to settle. -/
private theorem AtRest.settles {ops : List HandlerOp} (h : AtRest ops) (hidle : p.Idle) : Settles ops p := by
  rcases h with rfl | rfl | rfl
  · exact hidle
  · exact settles_rest hidle
  · exact settles_rest hidle

/-- Each handler settles the interrupt it was entered for. -/
private theorem settles_handler {f : Handler} {ops : List HandlerOp} (hruns : HandlerRuns f ops) (hidle : p.Idle)
    (hmaster : p.master.autoEoi = false) (hslave : p.slave.autoEoi = false) :
    (f = .pitAsm → Settles ops { p with master := p.master.serve 0 }) ∧
      (f = .keyboardAsm → Settles ops { p with master := p.master.serve 1 }) ∧
      (f = .rtcAsm → Settles ops ⟨p.master.serve slaveLine, p.slave.serve 0⟩) := by
  have hserved : ∀ n, ((p.master.serve n).endOfInterrupt n).Idle := fun n => hidle.master.serve_eoi hmaster
  cases hruns with
  | rtcAsm =>
    refine ⟨fun h => (by cases h), fun h => (by cases h), fun _ => ?_⟩
    rw [handleRtcOps, sendEoi_slave]
    exact settles_outb_slave (by decide) (settles_outb_master (by decide)
      ⟨⟨hserved slaveLine, hidle.slave.serve_eoi hslave⟩, .inl rfl⟩)
  | keyboardAsm =>
    refine ⟨fun h => (by cases h), fun _ => ?_, fun h => (by cases h)⟩
    rw [keyboardHandlerOps, sendEoi_master.2]
    exact settles_outb_master (by decide) ⟨hserved 1, hidle.slave⟩
  | pitAsm tick =>
    refine ⟨fun _ => ?_, fun h => (by cases h), fun h => (by cases h)⟩
    cases tick with
    | launched =>
      rw [pitHandlerOps, sendEoi_master.1]
      exact settles_outb_master (by decide) ⟨⟨hserved 0, hidle.slave⟩, .inr (.inr (by rw [sendEoi_master.1]; rfl))⟩
    | failed =>
      rw [pitHandlerOps, sendEoi_master.1]
      -- the second acknowledgement finds nothing in service
      exact settles_outb_master (by decide) (settles_outb_master (by decide)
        ⟨idle_endOfInterrupt (hserved 0) 0, hidle.slave⟩)
    | late =>
      rw [pitHandlerOps, sendEoi_master.1]
      exact settles_outb_master (by decide) ⟨hserved 0, hidle.slave⟩

end Settles

/-! ### The masks -/

/-- A chip that has been set up, with this mask. -/
structure ChipSound (base cascade mask : UInt8) (c : Chip) : Prop where
  phase : c.phase = .ready
  base : c.base = base
  cascade : c.cascade = cascade
  autoEoi : c.autoEoi = false
  masked : c.masked = bit mask

/-- The chips are as `i8259_init` leaves them, with the masks of the driver; and these let only the slave and the three
devices through. -/
structure BoardSound (b : Board) : Prop where
  master : ChipSound 0x20 0x04 b.pic.masterMask b.chips.master
  slave : ChipSound 0x28 0x02 b.pic.slaveMask b.chips.slave
  slaveOn : bit b.pic.masterMask slaveLine = false
  masterOff : ∀ n < 8, n ≠ 0 → n ≠ 1 → n ≠ slaveLine → bit b.pic.masterMask n = true
  slaveOff : ∀ n < 8, n ≠ 0 → bit b.pic.slaveMask n = true

section Board

variable {b : Board} {c : Chip} {base cascade mask : UInt8}

private theorem ChipSound.changed (h : ChipSound base cascade mask c) (requested inService : Nat → Bool) :
    ChipSound base cascade mask { c with requested := requested, inService := inService } :=
  ⟨h.phase, h.base, h.cascade, h.autoEoi, h.masked⟩

theorem ChipSound.endOfInterrupt (h : ChipSound base cascade mask c) (n : Nat) :
    ChipSound base cascade mask (c.endOfInterrupt n) := h.changed _ _

theorem ChipSound.serve (h : ChipSound base cascade mask c) (n : Nat) : ChipSound base cascade mask (c.serve n) :=
  h.changed _ _

theorem ChipSound.data (h : ChipSound base cascade mask c) (mask' : UInt8) :
    ChipSound base cascade mask' (c.data mask') := by
  rw [Chip.data_of_ready h.phase]
  exact ⟨h.phase, h.base, h.cascade, h.autoEoi, rfl⟩

theorem BoardSound.ready (h : BoardSound b) : b.chips.Ready := by
  refine ⟨h.master.phase, h.slave.phase, ?_⟩
  rw [Pair.Cascaded, h.master.cascade, h.slave.cascade]
  decide

private theorem boardSound_init (ports : Nat → UInt8) (chips : Pair) :
    BoardSound (Board.i8259Init ⟨pic₀ ports, chips⟩) := by
  have hchips := i8259Init_chips ⟨pic₀ ports, chips⟩
  have hbits : bit 0xFB slaveLine = false ∧ (∀ n < 8, n ≠ 0 → n ≠ 1 → n ≠ slaveLine → bit 0xFB n = true) ∧
      ∀ n < 8, n ≠ 0 → bit 0xFF n = true := by decide
  exact
    { master := hchips ▸ ⟨rfl, rfl, rfl, rfl, rfl⟩
      slave := hchips ▸ ⟨rfl, rfl, rfl, rfl, rfl⟩
      slaveOn := hbits.1
      masterOff := hbits.2.1
      slaveOff := hbits.2.2 }

/-- An interrupt of the kernel is enabled. -/
theorem BoardSound.enableIrq {irqNum : UInt32} (h : BoardSound b) (hirq : irqNum = 0 ∨ irqNum = 1 ∨ irqNum = 8) :
    BoardSound (b.enableIrq irqNum) := by
  have hmaster : ∀ irqNum : UInt32, irqNum.toNat < 2 → ∀ k < 8,
      bit (b.pic.masterMask.toUInt32 &&& ~~~(1 <<< irqNum)).toUInt8 k =
        (bit b.pic.masterMask k && !decide (k = irqNum.toNat)) :=
    fun irqNum hlt k hk => bit_clear (by omega) _ hk
  have hkeeps : ∀ irqNum : UInt32, irqNum.toNat < 2 →
      bit (b.pic.masterMask.toUInt32 &&& ~~~(1 <<< irqNum)).toUInt8 slaveLine = false ∧
      ∀ n < 8, n ≠ 0 → n ≠ 1 → n ≠ slaveLine →
        bit (b.pic.masterMask.toUInt32 &&& ~~~(1 <<< irqNum)).toUInt8 n = true := by
    intro irqNum hlt
    refine ⟨?_, fun n hn h0 h1 h2 => ?_⟩
    · rw [hmaster irqNum hlt _ (by decide), h.slaveOn, Bool.false_and]
    · rw [hmaster irqNum hlt n hn, h.masterOff n hn h0 h1 h2, decide_eq_false (by omega)]
      rfl
  rcases hirq with rfl | rfl | rfl
  · obtain ⟨hon, hoff⟩ := hkeeps 0 (by decide)
    exact ⟨h.master.data _, h.slave, hon, hoff, h.slaveOff⟩
  · obtain ⟨hon, hoff⟩ := hkeeps 1 (by decide)
    exact ⟨h.master.data _, h.slave, hon, hoff, h.slaveOff⟩
  · refine ⟨h.master, h.slave.data _, h.slaveOn, h.masterOff, fun n hn h0 => ?_⟩
    have hbit : bit (b.pic.slaveMask.toUInt32 &&& ~~~(1 <<< (8 - 8 : UInt32))).toUInt8 n =
        (bit b.pic.slaveMask n && !decide (n = (8 - 8 : UInt32).toNat)) := bit_clear (by decide) _ hn
    have hline : ¬n = (8 - 8 : UInt32).toNat := h0
    refine hbit.trans ?_
    rw [h.slaveOff n hn h0, decide_eq_false hline]
    rfl

/-- It is unmasked, and nothing else changes in the chips. -/
private theorem BoardSound.enableIrq_chips {irqNum : UInt32} (h : BoardSound b)
    (hirq : irqNum = 0 ∨ irqNum = 1 ∨ irqNum = 8) :
    (b.enableIrq irqNum).chips.requested = b.chips.requested ∧ (b.chips.Idle → (b.enableIrq irqNum).chips.Idle) ∧
      ∀ n < 16, (b.enableIrq irqNum).chips.masked n = (b.chips.masked n && !decide (n = irqNum.toNat)) := by
  have hmaster : ∀ mask, b.chips.master.data mask = { b.chips.master with masked := bit mask } :=
    Chip.data_of_ready h.master.phase
  have hslave : ∀ mask, b.chips.slave.data mask = { b.chips.slave with masked := bit mask } :=
    Chip.data_of_ready h.slave.phase
  have hmasterBits : ∀ irqNum : UInt32, irqNum.toNat < 8 → ∀ n < 16,
      Pair.masked { b.chips with master := { b.chips.master with
        masked := bit (b.pic.masterMask.toUInt32 &&& ~~~(1 <<< irqNum)).toUInt8 } } n =
        (b.chips.masked n && !decide (n = irqNum.toNat)) := by
    intro irqNum hirq n hn
    unfold Pair.masked
    by_cases hlow : n < 8
    · rw [if_pos hlow, if_pos hlow, h.master.masked]
      exact bit_clear (by omega) _ hlow
    · rw [if_neg hlow, if_neg hlow, decide_eq_false (by omega), Bool.not_false, Bool.and_true]
  rcases hirq with rfl | rfl | rfl
  · have hchips : (b.enableIrq 0).chips =
        ⟨b.chips.master.data (b.pic.masterMask.toUInt32 &&& ~~~((1 : UInt32) <<< 0)).toUInt8, b.chips.slave⟩ := rfl
    rw [hchips, hmaster]
    exact ⟨rfl, fun hidle => ⟨hidle.master, hidle.slave⟩, hmasterBits 0 (by decide)⟩
  · have hchips : (b.enableIrq 1).chips =
        ⟨b.chips.master.data (b.pic.masterMask.toUInt32 &&& ~~~((1 : UInt32) <<< 1)).toUInt8, b.chips.slave⟩ := rfl
    rw [hchips, hmaster]
    exact ⟨rfl, fun hidle => ⟨hidle.master, hidle.slave⟩, hmasterBits 1 (by decide)⟩
  · have hchips : (b.enableIrq 8).chips =
        ⟨b.chips.master, b.chips.slave.data (b.pic.slaveMask.toUInt32 &&& ~~~((1 : UInt32) <<< (8 - 8))).toUInt8⟩ := rfl
    rw [hchips, hslave]
    refine ⟨rfl, fun hidle => ⟨hidle.master, hidle.slave⟩, fun n hn => ?_⟩
    unfold Pair.masked
    by_cases hlow : n < 8
    · rw [if_pos hlow, if_pos hlow, decide_eq_false (show ¬n = (8 : UInt32).toNat from by
        show ¬n = 8
        omega), Bool.not_false, Bool.and_true]
    · rw [if_neg hlow, if_neg hlow, h.slave.masked]
      refine (bit_clear (by decide) _ (by omega)).trans ?_
      have hline : n - 8 = (8 - 8 : UInt32).toNat ↔ n = (8 : UInt32).toNat := by
        show n - 8 = 0 ↔ n = 8
        omega
      rw [decide_eq_decide.2 hline]

/-- An acknowledgement leaves it so. -/
theorem BoardSound.outb {v : UInt8} {port n : Nat} (h : BoardSound b) (hack : Acknowledges v port n) :
    BoardSound (b.outb v port) := by
  have hchips : (b.outb v port).chips = if port = Pic.pic1Command then
      { b.chips with master := b.chips.master.endOfInterrupt n }
    else { b.chips with slave := b.chips.slave.endOfInterrupt n } := portOut_acknowledges hack
  by_cases hport : port = Pic.pic1Command
  · rw [if_pos hport] at hchips
    exact ⟨hchips ▸ h.master.endOfInterrupt n, hchips ▸ h.slave, h.slaveOn, h.masterOff, h.slaveOff⟩
  · rw [if_neg hport] at hchips
    exact ⟨hchips ▸ h.master, hchips ▸ h.slave.endOfInterrupt n, h.slaveOn, h.masterOff, h.slaveOff⟩

/-- And so does a request. -/
theorem BoardSound.raise (h : BoardSound b) (n : Nat) : BoardSound { b with chips := b.chips.raise n } := by
  unfold Pair.raise
  split_ifs
  · exact ⟨h.master.changed _ _, h.slave, h.slaveOn, h.masterOff, h.slaveOff⟩
  · exact ⟨h.master, h.slave.changed _ _, h.slaveOn, h.masterOff, h.slaveOff⟩

/-- The handler of a device. -/
def deviceHandler (n : Nat) : Handler := if n = 0 then .pitAsm else if n = 1 then .keyboardAsm else .rtcAsm

/-- What the pair can interrupt with: one of the three devices, with the vector of its handler. -/
structure Served (n : Nat) (v : UInt8) : Prop where
  device : n = 0 ∨ n = 1 ∨ n = 8
  vector : v.toNat = 0x20 + n
  handler : handlerOf v.toFin = some (deviceHandler n)

/-- The pair after it, if nothing was in service: the interrupt's line is, and that of the slave. -/
theorem BoardSound.acknowledge {n : Nat} {v : UInt8} {chips : Pair} (h : BoardSound b)
    (hack : b.chips.acknowledge = some (n, v, chips)) :
    Served n v ∧ BoardSound { b with chips := chips } ∧
      chips = if n = 8 then ⟨b.chips.master.serve slaveLine, b.chips.slave.serve 0⟩
        else { b.chips with master := b.chips.master.serve n } := by
  cases Pair.acknowledged h.ready.cascaded hack with
  | master hline hoffers =>
    obtain ⟨-, hn, ⟨-, hmask⟩, -⟩ := hoffers
    rw [h.master.masked] at hmask
    have hdevice : n = 0 ∨ n = 1 := by
      by_contra hother
      have hmasked := h.masterOff n hn (by omega) (by omega) hline
      exact Bool.false_ne_true (hmask.symm.trans hmasked)
    refine ⟨?_, ⟨h.master.serve n, h.slave, h.slaveOn, h.masterOff, h.slaveOff⟩, by rw [if_neg (by omega)]⟩
    rw [h.master.base]
    rcases hdevice with rfl | rfl
    · exact ⟨.inl rfl, by decide, by decide⟩
    · exact ⟨.inr (.inl rfl), by decide, by decide⟩
  | slave hoffers hmaster =>
    rename_i k
    obtain ⟨-, hk, ⟨-, hmask⟩, -⟩ := hoffers
    rw [h.slave.masked] at hmask
    have hdevice : k = 0 := by
      by_contra hother
      exact Bool.false_ne_true (hmask.symm.trans (h.slaveOff k hk hother))
    subst hdevice
    refine ⟨?_, ⟨h.master.serve slaveLine, h.slave.serve 0, h.slaveOn, h.masterOff, h.slaveOff⟩, rfl⟩
    rw [h.slave.base]
    exact ⟨.inr (.inr rfl), by decide, by decide⟩

end Board

/-! ### The invariant -/

/-- The handlers on a stack have settled their interrupts. -/
def Resting (frames : HandlerFrames) : Prop := ∀ ops ∈ frames, AtRest ops

/-- With interrupts on, nothing is in service.  With interrupts off, the handler in progress settles what is. -/
structure IrqSound (m : IrqMachine) : Prop where
  board : BoardSound m.board
  saved : ∀ frames ∈ m.saved, Resting frames
  left : ∀ frames ∈ m.left, Resting frames
  idle : m.flag = true ∨ m.stack = [] → m.board.chips.Idle ∧ Resting m.stack
  settles : ∀ ops frames, m.flag = false → m.stack = ops :: frames → Settles ops m.board.chips ∧ Resting frames

section Steps

variable {address : Handler → BitVec 32} {m m' : IrqMachine}

theorem IrqSound.off {ops : List HandlerOp} {frames : HandlerFrames} (hboard : BoardSound m.board)
    (hsaved : ∀ frames ∈ m.saved, Resting frames) (hleft : ∀ frames ∈ m.left, Resting frames) (hflag : m.flag = false)
    (hstack : m.stack = ops :: frames) (hsettles : Settles ops m.board.chips) (hframes : Resting frames) :
    IrqSound m := by
  refine ⟨hboard, hsaved, hleft, fun hor => ?_, fun ops' frames' _ heq => ?_⟩
  · rcases hor with hon | hnil
    · exact absurd (hflag.symm.trans hon) Bool.false_ne_true
    · exact absurd (hstack.symm.trans hnil) (List.cons_ne_nil _ _)
  · cases hstack.symm.trans heq
    exact ⟨hsettles, hframes⟩

theorem IrqSound.on (hboard : BoardSound m.board) (hsaved : ∀ frames ∈ m.saved, Resting frames)
    (hleft : ∀ frames ∈ m.left, Resting frames) (hidle : m.board.chips.Idle) (hstack : Resting m.stack) :
    IrqSound m := by
  refine ⟨hboard, hsaved, hleft, fun _ => ⟨hidle, hstack⟩, fun ops frames _ heq => ?_⟩
  rw [heq] at hstack
  exact ⟨(hstack ops List.mem_cons_self).settles hidle, fun ops' hmem => hstack ops' (List.mem_cons_of_mem _ hmem)⟩

/-- The handler in progress settles what is in service, whether interrupts are on or off. -/
private theorem IrqSound.settles_top {ops : List HandlerOp} {frames : HandlerFrames} (h : IrqSound m)
    (hstack : m.stack = ops :: frames) : Settles ops m.board.chips ∧ Resting frames := by
  cases hflag : m.flag with
  | true =>
    obtain ⟨hidle, hrest⟩ := h.idle (.inl hflag)
    rw [hstack] at hrest
    exact ⟨(hrest ops List.mem_cons_self).settles hidle, fun ops' hmem => hrest ops' (List.mem_cons_of_mem _ hmem)⟩
  | false => exact h.settles ops frames hflag hstack

private theorem resting_nil : Resting [] := fun _ hmem => absurd hmem List.not_mem_nil

private theorem irqSound_booted (ports : Nat → UInt8) (chips : Pair) : IrqSound (irqBooted ports chips) := by
  have hidle : (Board.i8259Init ⟨pic₀ ports, chips⟩).chips.Idle := by
    rw [i8259Init_chips]
    exact ⟨rfl, rfl⟩
  have hinit := boardSound_init ports chips
  have hrtc := hinit.enableIrq (.inr (.inr rfl))
  refine .on (hrtc.enableIrq (.inr (.inl rfl))) (fun _ hmem => absurd hmem List.not_mem_nil)
    (fun _ hmem => absurd hmem List.not_mem_nil) ?_ resting_nil
  exact (hrtc.enableIrq_chips (.inr (.inl rfl))).2.1 ((hinit.enableIrq_chips (.inr (.inr rfl))).2.1 hidle)

private theorem resting_cons {ops : List HandlerOp} {frames : HandlerFrames} (hops : AtRest ops)
    (hframes : Resting frames) : Resting (ops :: frames) := by
  rintro ops' (_ | ⟨_, hmem⟩)
  · exact hops
  · exact hframes ops' hmem

/-- The stacks a tick may take to return on. -/
private theorem IrqSound.loaded {frames loaded : HandlerFrames} (h : IrqSound m) (hframes : Resting frames)
    (hloaded : loaded ∈ frames :: m.saved) : Resting loaded := by
  rcases List.mem_cons.1 hloaded with rfl | hsaved
  · exact hframes
  · exact h.saved _ hsaved

/-- One operation of the handler in progress. -/
private theorem HandlerStep.sound {o : HandlerOp} {ops : List HandlerOp} {frames : HandlerFrames} (h : IrqSound m)
    (hstack : m.stack = (o :: ops) :: frames) (hstep : HandlerStep m ops frames o m') : IrqSound m' := by
  obtain ⟨hsettles, hframes⟩ := h.settles_top hstack
  cases hflag : m.flag with
  | true =>
    -- the handler on top is at rest, and nothing it does brings a line into service
    obtain ⟨hidle, hrest⟩ := h.idle (.inl hflag)
    rw [hstack] at hrest
    rcases hrest _ List.mem_cons_self with htop | htop | htop
    · cases htop
      cases hstep
      exact .on h.board h.saved h.left hidle hframes
    · rw [sendEoi_master.1] at htop
      cases htop
      cases hstep
      obtain ⟨⟨n, hack⟩, -⟩ := hsettles
      exact .on (h.board.outb hack) h.saved h.left (idle_acknowledges hack hidle) (resting_cons (.inl rfl) hframes)
    · cases htop
      cases hstep with
      | loadStack hloaded =>
        exact .on h.board h.saved h.left hidle (resting_cons (.inr (.inl rfl)) (h.loaded hframes hloaded))
  | false =>
    cases hstep with
    | outb =>
      obtain ⟨⟨n, hack⟩, hrest⟩ := hsettles
      exact .off (h.board.outb hack) h.saved h.left hflag rfl hrest hframes
    | cli => exact .off h.board h.saved h.left rfl rfl hsettles hframes
    | sti =>
      obtain ⟨hidle, hops⟩ := hsettles
      exact .on h.board h.saved h.left hidle (resting_cons hops hframes)
    | iret => exact .on h.board h.saved h.left hsettles hframes
    | saveStack =>
      refine .off h.board ?_ h.left hflag rfl hsettles hframes
      rintro frames' (_ | ⟨_, hmem⟩)
      · exact hframes
      · exact h.saved frames' hmem
    | loadStack hloaded => exact .off h.board h.saved h.left hflag rfl hsettles (h.loaded hframes hloaded)
    | leave =>
      obtain ⟨hidle, hops⟩ := hsettles
      refine .on h.board h.saved ?_ hidle resting_nil
      rintro frames' (_ | ⟨_, hmem⟩)
      · exact resting_cons hops hframes
      · exact h.left frames' hmem

/-- An interrupt is accepted only when nothing is in service, and its handler settles it. -/
private theorem IrqSound.accept {n : Nat} {v : UInt8} {chips : Pair} {f : Handler} {ops : List HandlerOp}
    (h : IrqSound m) (hflag : m.flag = true) (hack : m.board.chips.acknowledge = some (n, v, chips))
    (hhandler : handlerOf v.toFin = some f) (hruns : HandlerRuns f ops) :
    IrqSound { m with
      board.chips := chips
      flag := decide ((readGate (idtVector address (fun _ => idtZero) v.toFin).word).kind = trapGate)
      stack := ops :: m.stack } := by
  obtain ⟨hserved, hboard, hchips⟩ := h.board.acknowledge hack
  obtain ⟨hidle, hrest⟩ := h.idle (.inl hflag)
  have hf : f = deviceHandler n := Option.some.inj (hhandler.symm.trans hserved.handler)
  obtain ⟨hpit, hkeyboard, hrtc⟩ := settles_handler hruns hidle h.board.master.autoEoi h.board.slave.autoEoi
  refine .off hboard h.saved h.left ?_ rfl ?_ hrest
  · have hv : v.toFin ≠ 0x80 := by
      intro heq
      rw [heq] at hhandler
      cases hhandler
      cases hruns
    rw [readGate_idtVector, decide_eq_false_iff_not, gateOf, if_neg hv]
    show interruptGate ≠ trapGate
    decide
  · show Settles ops chips
    rw [hchips]
    rcases hserved.device with rfl | rfl | rfl
    · exact hpit hf
    · exact hkeyboard hf
    · exact hrtc hf

private theorem IrqMachineStep.sound {e : IrqEvent} (h : IrqSound m) (hstep : IrqMachineStep address m e m') :
    IrqSound m' := by
  cases hstep with
  | request hn hline =>
    rename_i n
    have hboard := h.board.raise n
    refine ⟨hboard, h.saved, h.left, fun hor => ?_, fun ops frames hoff heq => ?_⟩
    · obtain ⟨hidle, hrest⟩ := h.idle hor
      exact ⟨(idle_raise n).2 hidle, hrest⟩
    · obtain ⟨hsettles, hframes⟩ := h.settles ops frames hoff heq
      exact ⟨hsettles.raise n, hframes⟩
  | accept hflag hack hhandler hruns => exact h.accept hflag hack hhandler hruns
  | op hstack hop => exact hop.sound h hstack
  | flag b hstack =>
    obtain ⟨hidle, hrest⟩ := h.idle (.inr hstack)
    exact .on h.board h.saved h.left hidle hrest
  | resume hstack hleft =>
    obtain ⟨hidle, -⟩ := h.idle (.inr hstack)
    refine .on h.board h.saved (fun frames hmem => h.left frames ?_) hidle (h.left _ ?_)
    · rw [hleft]
      rcases List.mem_append.1 hmem with hmem | hmem
      · exact List.mem_append_left _ hmem
      · exact List.mem_append_right _ (List.mem_cons_of_mem _ hmem)
    · rw [hleft]
      exact List.mem_append_right _ List.mem_cons_self
  | enable hstack hirq =>
    obtain ⟨hidle, hrest⟩ := h.idle (.inr hstack)
    exact .on (h.board.enableIrq hirq) h.saved h.left ((h.board.enableIrq_chips hirq).2.1 hidle) hrest

end Steps

/-- The interrupts along every run after boot, with requests of any devices at any time: whenever interrupts are on,
no line is in service, so none is held back; and only the timer, the keyboard and the clock are ever served, each
through the gate of its own handler, which is entered with interrupts off. -/
theorem interrupts_served {address : Handler → BitVec 32} {ports : Nat → UInt8} {chips : Pair} {es : List IrqEvent}
    {m : IrqMachine} (hrun : Run (IrqMachineStep address) (irqBooted ports chips) es m) :
    (m.flag = true → m.board.chips.Idle) ∧
      ∀ n v q, m.board.chips.acknowledge = some (n, v, q) → (n = 0 ∨ n = 1 ∨ n = 8) ∧ v.toNat = 0x20 + n ∧
        readGate (idtVector address (fun _ => idtZero) v.toFin).word =
          ⟨(address (deviceHandler n)).toNat, 0x10, interruptGate, 0, 1⟩ := by
  have hsound : IrqSound m := hrun.invariant (fun _ _ _ h hstep => hstep.sound h) (irqSound_booted ports chips)
  refine ⟨fun hflag => (hsound.idle (.inl hflag)).1, fun n v q hack => ?_⟩
  obtain ⟨⟨hdevice, hvector, hhandler⟩, -⟩ := hsound.board.acknowledge hack
  refine ⟨hdevice, hvector, ?_⟩
  have hv : v.toFin ≠ 0x80 := by
    intro heq
    have h80 : v.toNat = 0x80 := congrArg Fin.val heq
    omega
  rw [readGate_idtVector, gateOf, hhandler, if_neg hv, if_neg hv]
  rfl

/-- The clock has requested an interrupt, after boot. -/
def clockRequested : IrqMachine :=
  let m := irqBooted (fun _ => 0) ⟨initialized 0 0 0, initialized 0 0 0⟩
  { m with board.chips := m.board.chips.raise 8, flag := true }

/-- Its handler has acknowledged it and turned interrupts on again, and a key has been pressed between the two bytes of
the acknowledgement. -/
def clockServed : IrqMachine :=
  let m := clockRequested
  let m := { m with board.chips := ⟨m.board.chips.master.serve slaveLine, m.board.chips.slave.serve 0⟩ }
  let m := { m with board := m.board.outb 0x60 Pic.pic2Command }
  let m := { m with board.chips := m.board.chips.raise 1 }
  let m := { m with board := m.board.outb 0x62 Pic.pic1Command }
  { m with stack := [[.iret]] }

private theorem clockRequested_run (address : Handler → BitVec 32) :
    Run (IrqMachineStep address) (irqBooted (fun _ => 0) ⟨initialized 0 0 0, initialized 0 0 0⟩)
      [.flag true, .request 8] clockRequested :=
  .snoc (.single (.flag true rfl)) (.request (by decide) (by decide))

private theorem clockServed_run (address : Handler → BitVec 32) :
    Run (IrqMachineStep address) (irqBooted (fun _ => 0) ⟨initialized 0 0 0, initialized 0 0 0⟩)
      [.flag true, .request 8, .accept 8, .op, .op, .request 1, .op, .op] clockServed := by
  have hack : clockRequested.board.chips.acknowledge = some (8, 0x28,
      ⟨clockRequested.board.chips.master.serve slaveLine, clockRequested.board.chips.slave.serve 0⟩) := rfl
  have hops : handleRtcOps ++ [.iret] =
      [.cli, .outb 0x60 Pic.pic2Command, .outb 0x62 Pic.pic1Command, .sti, .iret] := by decide
  have hruns : HandlerRuns .rtcAsm [.cli, .outb 0x60 Pic.pic2Command, .outb 0x62 Pic.pic1Command, .sti, .iret] :=
    hops ▸ .rtcAsm
  have haccepted : Run (IrqMachineStep address) _ ([.flag true, .request 8] ++ [.accept 8]) _ :=
    (clockRequested_run address).snoc (.accept rfl hack (by decide) hruns)
  have hcli := haccepted.snoc (.op rfl .cli)
  have hslave := hcli.snoc (.op rfl .outb)
  have hkey := hslave.snoc (.request (n := 1) (by decide) (by decide))
  have hmaster := hkey.snoc (.op rfl .outb)
  exact hmaster.snoc (.op rfl .sti)

/-- The keyboard gets the next interrupt. -/
theorem clockServed_acknowledge :
    clockServed.board.chips.Idle ∧
      (clockServed.board.chips.acknowledge.map fun a => (a.1, a.2.1)) = some (1, 0x21) ∧
      ∀ n v q, clockServed.board.chips.acknowledge = some (n, v, q) →
        (n = 0 ∨ n = 1 ∨ n = 8) ∧ v.toNat = 0x20 + n ∧
          readGate (idtVector (fun _ => 0x400000) (fun _ => idtZero) v.toFin).word =
            ⟨0x400000, 0x10, interruptGate, 0, 1⟩ := by
  have hserved := interrupts_served (clockServed_run fun _ => 0x400000)
  exact ⟨hserved.1 rfl, by decide, hserved.2⟩

/-! ### Requests -/

/-- The requests and the masks are as before. -/
structure KeepsRequests (p q : Pair) : Prop where
  requested : q.requested = p.requested
  masked : q.masked = p.masked

theorem KeepsRequests.refl (p : Pair) : KeepsRequests p p := ⟨rfl, rfl⟩

theorem KeepsRequests.trans {p q r : Pair} (h : KeepsRequests p q) (h' : KeepsRequests q r) : KeepsRequests p r :=
  ⟨h'.requested.trans h.requested, h'.masked.trans h.masked⟩

private theorem keepsRequests_acknowledges {p : Pair} {v : UInt8} {port n : Nat} (h : Acknowledges v port n) :
    KeepsRequests p (portOut p v port) := by
  rw [portOut_acknowledges h]
  split_ifs <;> exact ⟨rfl, rfl⟩

/-- An event that is no request of a device. -/
inductive Internal : IrqEvent → Prop
  | accept (n : Nat) : Internal (.accept n)
  | op : Internal .op
  | flag (b : Bool) : Internal (.flag b)

/-- A run without requests. -/
def InternalRun (address : Handler → BitVec 32) (m m' : IrqMachine) : Prop :=
  ∃ es, Run (IrqMachineStep address) m es m' ∧ ∀ e ∈ es, Internal e

section Requests

variable {address : Handler → BitVec 32} {m m' m'' : IrqMachine}

theorem InternalRun.refl (m : IrqMachine) : InternalRun address m m :=
  ⟨[], .nil m, fun _ hmem => absurd hmem List.not_mem_nil⟩

theorem InternalRun.head {e : IrqEvent} (hstep : IrqMachineStep address m e m') (he : Internal e)
    (h : InternalRun address m' m'') : InternalRun address m m'' := by
  obtain ⟨es, hrun, hes⟩ := h
  refine ⟨[e] ++ es, (Run.single hstep).append hrun, fun e' hmem => ?_⟩
  rcases List.mem_append.1 hmem with hmem | hmem
  · rw [List.mem_singleton.1 hmem]
    exact he
  · exact hes e' hmem

theorem InternalRun.trans (h : InternalRun address m m') (h' : InternalRun address m' m'') :
    InternalRun address m m'' := by
  obtain ⟨es, hrun, hes⟩ := h
  obtain ⟨es', hrun', hes'⟩ := h'
  refine ⟨es ++ es', hrun.append hrun', fun e hmem => ?_⟩
  rcases List.mem_append.1 hmem with hmem | hmem
  · exact hes e hmem
  · exact hes' e hmem

/-- One operation keeps the requests. -/
private theorem HandlerStep.keepsRequests {o : HandlerOp} {ops : List HandlerOp} {frames : HandlerFrames}
    (h : IrqSound m) (hstack : m.stack = (o :: ops) :: frames) (hstep : HandlerStep m ops frames o m') :
    KeepsRequests m.board.chips m'.board.chips := by
  cases hstep with
  | outb =>
    obtain ⟨⟨⟨n, hack⟩, -⟩, -⟩ := h.settles_top hstack
    exact keepsRequests_acknowledges hack
  | cli | sti | iret | saveStack | loadStack | leave => exact .refl _

/-- The handler in progress comes to its end, and interrupts are on again. -/
private theorem IrqSound.finishes (address : Handler → BitVec 32) (h : IrqSound m) :
    ∃ m', InternalRun address m m' ∧ IrqSound m' ∧ m'.flag = true ∧ KeepsRequests m.board.chips m'.board.chips := by
  -- induction on what the handler still has to do
  have hends : ∀ (ops : List HandlerOp) (m : IrqMachine), IrqSound m → m.flag = false →
      (m.stack = [] ∨ ∃ frames, m.stack = ops :: frames) →
      ∃ m', InternalRun address m m' ∧ IrqSound m' ∧ m'.flag = true ∧
        KeepsRequests m.board.chips m'.board.chips := by
    intro ops
    induction ops with
    | nil =>
      rintro m hm hoff (hnil | ⟨frames, hstack⟩)
      · have hstep : IrqMachineStep address m (.flag true) { m with flag := true } := .flag true hnil
        exact ⟨_, (InternalRun.refl _).head hstep (.flag true), hstep.sound hm, rfl, .refl _⟩
      · exact (hm.settles _ _ hoff hstack).1.elim
    | cons o ops ih =>
      rintro m hm hoff (hnil | ⟨frames, hstack⟩)
      · have hstep : IrqMachineStep address m (.flag true) { m with flag := true } := .flag true hnil
        exact ⟨_, (InternalRun.refl _).head hstep (.flag true), hstep.sound hm, rfl, .refl _⟩
      · obtain ⟨m₁, hop, hnext⟩ : ∃ m₁, HandlerStep m ops frames o m₁ ∧
            (m₁.flag = true ∨ m₁.stack = [] ∨ ∃ frames, m₁.stack = ops :: frames) := by
          cases o with
          | outb v port => exact ⟨_, .outb, .inr (.inr ⟨frames, rfl⟩)⟩
          | cli => exact ⟨_, .cli, .inr (.inr ⟨frames, rfl⟩)⟩
          | sti => exact ⟨_, .sti, .inl rfl⟩
          | iret => exact ⟨_, .iret, .inl rfl⟩
          | saveStack => exact ⟨_, .saveStack, .inr (.inr ⟨frames, rfl⟩)⟩
          | loadStack => exact ⟨_, .loadStack List.mem_cons_self, .inr (.inr ⟨frames, rfl⟩)⟩
          | leave => exact ⟨_, .leave, .inr (.inl rfl)⟩
        have hstep : IrqMachineStep address m .op m₁ := .op hstack hop
        have hm₁ := hstep.sound hm
        have hkept := hop.keepsRequests hm hstack
        cases hflag : m₁.flag with
        | true => exact ⟨m₁, (InternalRun.refl _).head hstep .op, hm₁, hflag, hkept⟩
        | false =>
          have hshape := hnext.resolve_left fun hon => Bool.false_ne_true (hflag.symm.trans hon)
          obtain ⟨m', hrun, hm', hon, hkept'⟩ := ih m₁ hm₁ hflag hshape
          exact ⟨m', hrun.head hstep .op, hm', hon, hkept.trans hkept'⟩
  cases hflag : m.flag with
  | true => exact ⟨m, .refl m, h, hflag, .refl _⟩
  | false =>
    cases hstack : m.stack with
    | nil => exact hends [] m h hflag (.inl hstack)
    | cons ops frames => exact hends ops m h hflag (.inr ⟨frames, hstack⟩)

/-- The number of requests of the three devices. -/
def pendingRequests (p : Pair) : Nat := (p.requested 0).toNat + (p.requested 1).toNat + (p.requested 8).toNat

/-- With interrupts on, a request leads to an interrupt. -/
private theorem IrqSound.accepts (address : Handler → BitVec 32) {n : Nat} (h : IrqSound m) (hflag : m.flag = true)
    (hn : n = 0 ∨ n = 1 ∨ n = 8)
    (hrequest : m.board.chips.requested n = true) (hmask : m.board.chips.masked n = false) :
    ∃ k m', IrqMachineStep address m (.accept k) m' ∧
      (k = n ∨ m'.board.chips.requested n = true ∧ m'.board.chips.masked n = false ∧
        pendingRequests m'.board.chips < pendingRequests m.board.chips) := by
  have hslave : m.board.chips.master.masked slaveLine = false := by
    rw [h.board.master.masked]
    exact h.board.slaveOn
  have hline : n ≠ slaveLine := by
    unfold slaveLine
    omega
  obtain ⟨k, v, q, hack⟩ := Pair.acknowledge_isSome h.board.ready (h.idle (.inl hflag)).1 (by omega) hline hrequest
    hmask hslave
  obtain ⟨hserved, -, hchips⟩ := h.board.acknowledge hack
  obtain ⟨ops, hruns⟩ : ∃ ops, HandlerRuns (deviceHandler k) ops := by
    rcases hserved.device with rfl | rfl | rfl
    · exact ⟨_, .pitAsm .late⟩
    · exact ⟨_, .keyboardAsm⟩
    · exact ⟨_, .rtcAsm⟩
  refine ⟨k, _, .accept hflag hack hserved.handler hruns, ?_⟩
  have hacked := Pair.acknowledged h.board.ready.cascaded hack
  have hpending := hacked.was_requested
  by_cases hkn : k = n
  · exact .inl hkn
  · have hmasks : q.masked n = m.board.chips.masked n := by
      rw [hchips]
      split_ifs <;> rfl
    refine .inr ⟨?_, hmasks.trans hmask, ?_⟩
    · exact (hacked.requested n hline).trans ((if_neg fun hc => hkn hc.symm).trans hrequest)
    · have h0 := hacked.requested 0 (by decide)
      have h1 := hacked.requested 1 (by decide)
      have h8 := hacked.requested 8 (by decide)
      show pendingRequests q < _
      unfold pendingRequests
      rw [h0, h1, h8]
      rcases hserved.device with rfl | rfl | rfl
      · simp [hpending]
      · simp [hpending]
      · simp [hpending]

/-- From a sound state, a request of an enabled device can be served. -/
private theorem IrqSound.serves {n : Nat} (h : IrqSound m) (hn : n = 0 ∨ n = 1 ∨ n = 8)
    (hrequest : m.board.chips.requested n = true) (hmask : m.board.chips.masked n = false) :
    ∃ m' m'', InternalRun address m m' ∧ IrqMachineStep address m' (.accept n) m'' := by
  induction hμ : pendingRequests m.board.chips using Nat.strongRecOn generalizing m with
  | ind μ ih =>
    obtain ⟨m₁, hrun, hm₁, hflag, hkept⟩ := h.finishes address
    have hrequest₁ : m₁.board.chips.requested n = true := by rw [hkept.requested, hrequest]
    have hmask₁ : m₁.board.chips.masked n = false := by rw [hkept.masked, hmask]
    have haccepts := hm₁.accepts address hflag hn hrequest₁ hmask₁
    obtain ⟨k, m₂, hstep, heq | ⟨hrequest₂, hmask₂, hlower⟩⟩ := haccepts
    · exact ⟨m₁, m₂, hrun, heq ▸ hstep⟩
    · have hsame : pendingRequests m₁.board.chips = pendingRequests m.board.chips := by
        unfold pendingRequests
        rw [hkept.requested]
      obtain ⟨m', m'', hrun', hserve⟩ := ih _ (by omega) (hstep.sound hm₁) hrequest₂ hmask₂ rfl
      exact ⟨m', m'', hrun.trans ((InternalRun.refl _).head hstep (.accept k) |>.trans hrun'), hserve⟩

private theorem requested_raise (p : Pair) (k n : Nat) (h : p.requested n = true) : (p.raise k).requested n = true := by
  unfold Pair.requested Pair.raise at *
  split_ifs at * <;> simp_all [Function.update_apply]

/-- A request stays until it is served. -/
private theorem IrqSound.request_kept {n : Nat} {e : IrqEvent} (h : IrqSound m) (hn : n ≠ slaveLine)
    (hrequest : m.board.chips.requested n = true) (hstep : IrqMachineStep address m e m') :
    m'.board.chips.requested n = true ∨ e = .accept n := by
  cases hstep with
  | request hk hline => exact .inl (requested_raise _ _ _ hrequest)
  | accept hflag hack hhandler hruns =>
    rename_i k v q f ops
    by_cases hkn : n = k
    · exact .inr (by rw [hkn])
    · have hacked := Pair.acknowledged h.board.ready.cascaded hack
      exact .inl ((hacked.requested n hn).trans ((if_neg hkn).trans hrequest))
  | op hstack hop => exact .inl (by rw [(hop.keepsRequests h hstack).requested, hrequest])
  | flag b hstack => exact .inl hrequest
  | resume hstack hleft => exact .inl hrequest
  | enable hstack hirq => exact .inl (by rw [(h.board.enableIrq_chips hirq).1, hrequest])

/-- What is enabled stays so. -/
private theorem IrqSound.unmasked_kept {n : Nat} {e : IrqEvent} (h : IrqSound m) (hn : n < 16)
    (hmask : m.board.chips.masked n = false) (hstep : IrqMachineStep address m e m') :
    m'.board.chips.masked n = false := by
  cases hstep with
  | request hk hline =>
    rename_i k
    have hsame : (m.board.chips.raise k).masked = m.board.chips.masked := by
      unfold Pair.raise
      split_ifs <;> rfl
    exact (congrFun hsame n).trans hmask
  | accept hflag hack hhandler hruns =>
    rename_i k v q f ops
    have hsame : q.masked = m.board.chips.masked := by
      rw [(h.board.acknowledge hack).2.2]
      split_ifs <;> rfl
    exact (congrFun hsame n).trans hmask
  | op hstack hop => rw [(hop.keepsRequests h hstack).masked, hmask]
  | flag b hstack => exact hmask
  | resume hstack hleft => exact hmask
  | enable hstack hirq => rw [(h.board.enableIrq_chips hirq).2.2 n hn, hmask, Bool.false_and]

/-- The devices that have been enabled: two at boot, and the timer by `init_PIT`. -/
def DeviceEnabled (es : List IrqEvent) (n : Nat) : Prop := n = 1 ∨ n = 8 ∨ n = 0 ∧ IrqEvent.enable 0 ∈ es

private theorem Run.unmasked {es : List IrqEvent} {n : Nat} (hrun : Run (IrqMachineStep address) m es m')
    (h : IrqSound m) (hn : n < 16) (henabled : m.board.chips.masked n = false ∨ n = 0 ∧ IrqEvent.enable 0 ∈ es) :
    IrqSound m' ∧ m'.board.chips.masked n = false := by
  induction hrun with
  | nil => exact ⟨h, henabled.resolve_right fun hc => absurd hc.2 List.not_mem_nil⟩
  | @snoc t u es e hinit hlast ih =>
    have ht : IrqSound t := hinit.invariant (fun _ _ _ h hstep => hstep.sound h) h
    refine ⟨hlast.sound ht, ?_⟩
    rcases henabled with hmask | ⟨rfl, hmem⟩
    · exact ht.unmasked_kept hn (ih (.inl hmask)).2 hlast
    rcases List.mem_append.1 hmem with hmem | hmem
    · exact ht.unmasked_kept hn (ih (.inr ⟨rfl, hmem⟩)).2 hlast
    · cases List.mem_singleton.1 hmem
      cases hlast with
      | enable hstack hirq =>
        rw [(ht.board.enableIrq_chips hirq).2.2 0 hn]
        exact Bool.and_false _

private theorem unmasked_of_enabled {ports : Nat → UInt8} {chips : Pair} {es : List IrqEvent} {n : Nat}
    (hrun : Run (IrqMachineStep address) (irqBooted ports chips) es m) (hn : DeviceEnabled es n) :
    IrqSound m ∧ m.board.chips.masked n = false := by
  have hinit := boardSound_init ports chips
  have hrtc := hinit.enableIrq (.inr (.inr rfl))
  have hmasks : ∀ k < 16, (irqBooted ports chips).board.chips.masked k = _ :=
    (hrtc.enableIrq_chips (.inr (.inl rfl))).2.2
  rcases hn with rfl | rfl | hmem
  · refine Run.unmasked hrun (irqSound_booted ports chips) (by decide) (.inl ?_)
    rw [hmasks 1 (by decide)]
    exact Bool.and_false _
  · refine Run.unmasked hrun (irqSound_booted ports chips) (by decide) (.inl ?_)
    rw [hmasks 8 (by decide), (hinit.enableIrq_chips (.inr (.inr rfl))).2.2 8 (by decide)]
    exact (congrArg (· && _) (Bool.and_false _)).trans (Bool.false_and _)
  · exact Run.unmasked hrun (irqSound_booted ports chips) (by omega) (.inr hmem)

end Requests

/-- The requests along every run after boot: a request is kept until it is served; and one of an enabled device can be
served from every state that is reached, with no event but those of the kernel: the handler in progress comes to its
end, and at most the other two devices go first. -/
theorem requests_served {address : Handler → BitVec 32} {ports : Nat → UInt8} {chips : Pair} {es : List IrqEvent}
    {m : IrqMachine} (hrun : Run (IrqMachineStep address) (irqBooted ports chips) es m) :
    (∀ n ≠ slaveLine, m.board.chips.requested n = true →
      ∀ e m', IrqMachineStep address m e m' → m'.board.chips.requested n = true ∨ e = .accept n) ∧
    ∀ n, DeviceEnabled es n → m.board.chips.requested n = true →
      ∃ m' m'', InternalRun address m m' ∧ IrqMachineStep address m' (.accept n) m'' := by
  have hsound : IrqSound m := hrun.invariant (fun _ _ _ h hstep => hstep.sound h) (irqSound_booted ports chips)
  refine ⟨fun n hline hrequest e m' hstep => hsound.request_kept hline hrequest hstep, fun n hn hrequest => ?_⟩
  have hdevice : n = 0 ∨ n = 1 ∨ n = 8 := by
    rcases hn with h1 | h8 | ⟨h0, -⟩
    · exact .inr (.inl h1)
    · exact .inr (.inr h8)
    · exact .inl h0
  exact hsound.serves hdevice hrequest (unmasked_of_enabled hrun hn).2

/-- The key that has been pressed in the handler of the clock. -/
theorem clockServed_keyboard :
    (∀ e m', IrqMachineStep (fun _ => 0) clockServed e m' →
      m'.board.chips.requested 1 = true ∨ e = .accept 1) ∧
    ∃ m' m'', InternalRun (fun _ => 0) clockServed m' ∧ IrqMachineStep (fun _ => 0) m' (.accept 1) m'' := by
  obtain ⟨hkept, hserved⟩ := requests_served (clockServed_run fun _ => 0)
  exact ⟨hkept 1 (by decide) (by decide), hserved 1 (.inl rfl) (by decide)⟩

end BigChungOS
