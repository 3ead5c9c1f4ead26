import BigChungOS.State

/-!
# The real-time clock (rtc.c)

The driver works on the CMOS through an index port and a data port.  `cli`, `sti` and the interrupt acknowledge
have no effect on the state modelled here.
-/

namespace BigChungOS

open Memory

namespace Rtc

/-- `outb(v, RTC_PORT)`: select a register; the top bit only masks the NMI. -/
def select (r : Rtc) (v : Nat) : Rtc := { r with index := v % 128 }

/-- `inb(CMOS_PORT)`. -/
def inb (r : Rtc) : UInt8 := r.cmos r.index

/-- `outb(v, CMOS_PORT)`. -/
def outb (r : Rtc) (v : UInt8) : Rtc := { r with cmos := Function.update r.cmos r.index v }

end Rtc

/-- `init_rtc`. -/
def initRtc (r : Rtc) : Rtc :=
  let r := r.select 0x8A
  let prev := r.inb
  let r := r.select 0x8B
  r.outb (prev ||| 0x40)

/-- `handle_rtc`. -/
def handleRtc (r : Rtc) : Rtc := { r.select 0x0C with interruptFlag := false }

/-- The loop `while (frequency > temp && temp < MAX_RATE)`; `temp` doubles from 4, so eight rounds are enough. -/
def rtcRate (frequency : Int) : Nat → Int → UInt8 → UInt8
  | 0, _, rate => rate
  | fuel + 1, temp, rate =>
    if frequency > temp ∧ temp < 1024 then rtcRate frequency fuel (temp * 2) (rate - 1) else rate

/-- `rtc_set_frequency`. -/
def rtcSetFrequency (r : Rtc) (frequency : Int) : Rtc × Int :=
  let rate := rtcRate frequency 8 4 0x0F
  let r := r.select 0x8A
  let savedA := r.inb
  let r := r.select 0x8A
  (r.outb ((savedA &&& 0xF0) ||| rate), 4)

/-- `rtc_open`. -/
def rtcOpen (r : Rtc) : Rtc × Int := ((rtcSetFrequency r 2).1, 0)

/-- `rtc_close`. -/
def rtcClose (r : Rtc) : Rtc × Int := ((rtcSetFrequency r 2).1, 0)

/-- `rtc_read`: raise the flag and spin until the next interrupt has lowered it. -/
def rtcRead (r : Rtc) : Rtc × Int := (handleRtc { r with interruptFlag := true }, 0)

/-- The `int32_t` in the first four bytes of a buffer. -/
def int32At (buf : Nat → UInt8) : Int :=
  toInt32 ((buf 0).toNat + 0x100 * (buf 1).toNat + 0x10000 * (buf 2).toNat + 0x1000000 * (buf 3).toNat)

/-- `rtc_write`. -/
def rtcWrite (r : Rtc) (buf : Ptr) (nbytes : Int) : Rtc × Int :=
  match buf with
  | none => (r, -1)
  | some b =>
    let freq := int32At b
    if nbytes ≠ 4 then (r, -1)
    else if (BitVec.ofInt 32 freq &&& BitVec.ofInt 32 (freq - 1)) ≠ 0 ∨ freq > 1024 then (r, -1)
    else rtcSetFrequency r freq

end BigChungOS
