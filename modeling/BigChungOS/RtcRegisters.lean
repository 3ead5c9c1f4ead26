import BigChungOS.Lib.Runs
import BigChungOS.RtcFrequency

/-!
# The registers of the real-time clock

The driver should change only bit 6 of register B, which enables the periodic interrupt, and the rate in the low four
bits of register A.  `rtc_set_frequency` does: it selects register A before it reads and before it writes.  `init_rtc`
reads register A where it means B, and writes what it has read into B, with bit 6 set.  So the bits stay where they
belong exactly if `init_rtc` runs only while the two registers agree but for bit 6 (`rtc_registers_iff`).
-/

namespace BigChungOS

open Bits Transition

inductive RtcCall
  | init
  | open_
  | write (buf : Ptr) (nbytes : Int)
  | close
  | handle

/-- The clock after a call. -/
def rtcStep (r : Rtc) : RtcCall → Rtc
  | .init => initRtc r
  | .open_ => (rtcOpen r).1
  | .write buf nbytes => (rtcWrite r buf nbytes).1
  | .close => (rtcClose r).1
  | .handle => handleRtc r

/-- From `r₀` to `r`, at most bit 6 of register B has been set and the low four bits of register A have changed. -/
structure OwnBits (r₀ r : Rtc) : Prop where
  registerB : r.cmos 0x0B = r₀.cmos 0x0B ∨ r.cmos 0x0B = r₀.cmos 0x0B ||| 0x40
  registerA : r.cmos 0x0A &&& 0xF0 = r₀.cmos 0x0A &&& 0xF0
  others : ∀ i, i ≠ 0x0A → i ≠ 0x0B → r.cmos i = r₀.cmos i

/-- The registers A and B agree but for bit 6, if the call is `init_rtc`. -/
def RegistersAgree (r : Rtc) : RtcCall → Prop
  | .init => r.cmos 0x0A ||| 0x40 = r.cmos 0x0B ||| 0x40
  | .open_ | .write _ _ | .close | .handle => True

section Step

variable {r₀ r : Rtc}

/-- The rate has none of the high bits. -/
private theorem rtcRate_high (f : Int) : rtcRate f 8 4 0x0F &&& 0xF0 = 0 := by
  have hbound := (rtcRate_bounds f 4 (by decide : 8 ≤ (0x0F : UInt8).toNat)).2
  generalize rtcRate f 8 4 0x0F = rate at hbound
  have hlow : ∀ n : Fin 16, UInt8.ofNat n &&& 0xF0 = 0 := by decide
  have hfifteen : (0x0F : UInt8).toNat = 15 := rfl
  have hrate := hlow ⟨rate.toNat, by omega⟩
  rwa [UInt8.ofNat_toNat] at hrate

private theorem OwnBits.setFrequency (h : OwnBits r₀ r) (f : Int) : OwnBits r₀ (rtcSetFrequency r f).1 := by
  have hcmos := (rtcSetFrequency_spec r f).2
  refine ⟨?_, ?_, fun i hA hB => ?_⟩
  · rw [hcmos, Function.update_of_ne (by decide)]
    exact h.registerB
  · rw [hcmos, Function.update_self, and_or_of_free (rtcRate_high f)]
    exact h.registerA
  · rw [hcmos, Function.update_of_ne hA]
    exact h.others i hA hB

/-- `rtc_write` sets a frequency or changes nothing. -/
private theorem rtcWrite_cases (r : Rtc) (buf : Ptr) (nbytes : Int) :
    rtcWrite r buf nbytes = (r, -1) ∨ ∃ f, rtcWrite r buf nbytes = rtcSetFrequency r f := by
  by_cases hrequest : ∃ f, Requests buf nbytes f
  · obtain ⟨f, hf⟩ := hrequest
    rw [rtcWrite_request hf]
    split
    · exact .inr ⟨f, rfl⟩
    · exact .inl rfl
  · exact .inl (rtcWrite_no_request fun f hf => hrequest ⟨f, hf⟩)

/-- `init_rtc` copies register A into B. -/
private theorem initRtc_cmos (r : Rtc) : (initRtc r).cmos = Function.update r.cmos 0x0B (r.cmos 0x0A ||| 0x40) := rfl

/-- That is right if what register B has then is what it had, with bit 6 set. -/
private theorem OwnBits.init_iff (h : OwnBits r₀ r) : OwnBits r₀ (initRtc r) ↔ RegistersAgree r .init := by
  have hbit : r.cmos 0x0B ||| 0x40 = r₀.cmos 0x0B ||| 0x40 := by
    rcases h.registerB with hB | hB
    · rw [hB]
    · rw [hB, or_mask_twice]
  have hB : (initRtc r).cmos 0x0B = r.cmos 0x0A ||| 0x40 := by rw [initRtc_cmos, Function.update_self]
  rw [RegistersAgree, hbit]
  constructor
  · intro hinit
    rcases hinit.registerB with heq | heq
    · rw [hB] at heq
      rw [← heq, or_mask_twice]
    · rwa [hB] at heq
  · intro hagree
    refine ⟨.inr (hB.trans hagree), ?_, fun i hA hne => ?_⟩
    · rw [initRtc_cmos, Function.update_of_ne (by decide)]
      exact h.registerA
    · rw [initRtc_cmos, Function.update_of_ne hne]
      exact h.others i hA hne

private theorem rtcStep_ownBits_iff (h : OwnBits r₀ r) (call : RtcCall) :
    OwnBits r₀ (rtcStep r call) ↔ RegistersAgree r call := by
  cases call with
  | init => exact h.init_iff
  | open_ | close => exact iff_of_true (h.setFrequency 2) trivial
  | write buf nbytes =>
    refine iff_of_true ?_ trivial
    rw [rtcStep]
    rcases rtcWrite_cases r buf nbytes with heq | ⟨f, heq⟩
    · rw [heq]
      exact h
    · rw [heq]
      exact h.setFrequency f
  | handle => exact iff_of_true ⟨h.registerB, h.registerA, h.others⟩ trivial

end Step

/-- The registers of the clock.  For all initial contents, along every sequence of calls in which `init_rtc` is called
only while registers A and B agree but for bit 6, register B differs from its initial value at most by bit 6 being set,
register A at most in its low four bits, and the others do not; and from there a call keeps this exactly when it meets
the condition. -/
theorem rtc_registers_iff {r₀ r : Rtc} {calls : List RtcCall}
    (hrun : Run (Guarded RegistersAgree fun r call r' => rtcStep r call = r') r₀ calls r) :
    OwnBits r₀ r ∧ ∀ call r', rtcStep r call = r' → (OwnBits r₀ r' ↔ RegistersAgree r call) := by
  refine Run.guarded_exact (I := fun _ => True) (fun _ _ _ _ _ _ _ => trivial) ?_ hrun trivial
    ⟨.inl rfl, rfl, fun _ _ _ => rfl⟩
  rintro r call _ - hr rfl
  exact rtcStep_ownBits_iff hr call

/-- A clock whose registers agree is initialised and opened. -/
theorem power_on_registers :
    let r := rtcStep (rtcStep rtc₀ .init) .open_
    OwnBits rtc₀ r ∧ ∀ call r', rtcStep r call = r' → (OwnBits rtc₀ r' ↔ RegistersAgree r call) := by
  intro r
  have hrun : Run (Guarded RegistersAgree fun r call r' => rtcStep r call = r') rtc₀ ([] ++ [.init] ++ [.open_]) r :=
    .snoc (.snoc (.nil _) ⟨rfl, rfl⟩) ⟨trivial, rfl⟩
  exact rtc_registers_iff hrun

/-- The clock with the usual contents of its registers: 0x26 in A, 0x02 in B. -/
def usualRtc : Rtc where
  index := 0
  cmos i := if i = 0x0A then 0x26 else if i = 0x0B then 0x02 else 0
  interruptFlag := false

/-- `init_rtc` leaves 0x66 in register B: the bits 2 and 5 of register A have come with it. -/
theorem init_rtc_copies_registerA :
    let r := rtcStep usualRtc .init
    Run (fun r call r' => rtcStep r call = r') usualRtc [.init] r ∧ r.cmos 0x0B = 0x66 ∧ ¬OwnBits usualRtc r := by
  intro r
  refine ⟨Run.single rfl, by decide, fun hown => ?_⟩
  rcases hown.registerB with heq | heq
  · exact absurd heq (by decide)
  · exact absurd heq (by decide)

end BigChungOS
