import BigChungOS.Lib.Bits
import BigChungOS.Rtc
import Mathlib.Algebra.Order.Ring.Int
import Mathlib.Tactic.IntervalCases

/-!
# The frequency of the real-time clock

`rtc_write` should accept the powers of two from 2 to 1024 and program register A for them.  Its test for a power of two
lets 0, 1 and the least `int32_t` through, which have one bit or none; and the loop that looks for the rate starts one
doubling too late, so every frequency but 2 is set to half of what is asked for (`rtcWrite_halves`).
-/

namespace BigChungOS

open Bits Memory

/-! ### Powers of two -/

/-- The test `freq & (freq - 1)`, on the values that are not above 1024. -/
private theorem powerTest_iff {f : Int} (hlo : -2147483648 ≤ f) (hhi : f ≤ 1024) :
    BitVec.ofInt 32 f &&& BitVec.ofInt 32 (f - 1) = 0 ↔
      f = 0 ∨ f = -2147483648 ∨ ∃ n : Nat, n ≤ 10 ∧ f = 2 ^ n := by
  have hzeroNat : (0 : BitVec 32).toNat = 0 := rfl
  rw [← BitVec.toNat_inj, BitVec.toNat_and, BitVec.toNat_ofInt, BitVec.toNat_ofInt, hzeroNat]
  by_cases hzero : f = 0
  · simp [hzero]
  -- as a number without sign, one bit is left
  generalize hm : (f % ((2 ^ 32 : Nat) : Int)).toNat = m
  have hpred : ((f - 1) % ((2 ^ 32 : Nat) : Int)).toNat = m - 1 := by omega
  have hne : m ≠ 0 := by omega
  rw [hpred, Nat.and_sub_one_eq_zero_iff_isPowerOfTwo hne]
  constructor
  · rintro ⟨n, hn⟩
    by_cases hneg : f < 0
    · have hbig : n = 31 := by
        have hlow : 2 ^ 30 < 2 ^ n := by omega
        have hhigh : 2 ^ n < 2 ^ 32 := by omega
        have hgt := (Nat.pow_lt_pow_iff_right (by decide)).1 hlow
        have hlt := (Nat.pow_lt_pow_iff_right (by decide)).1 hhigh
        omega
      subst hbig
      exact .inr (.inl (by omega))
    · have hsmall : n ≤ 10 := by
        have hle : 2 ^ n ≤ 2 ^ 10 := by omega
        exact (Nat.pow_le_pow_iff_right (by decide)).1 hle
      refine .inr (.inr ⟨n, hsmall, ?_⟩)
      have hcast : ((2 ^ n : Nat) : Int) = (2 : Int) ^ n := by push_cast; rfl
      omega
  · rintro (heq | heq | ⟨n, hn, heq⟩)
    · exact absurd heq hzero
    · exact ⟨31, by omega⟩
    · have hcast : ((2 ^ n : Nat) : Int) = (2 : Int) ^ n := by push_cast; rfl
      have hle : 2 ^ n ≤ 2 ^ 10 := Nat.pow_le_pow_right (by decide) hn
      have hpos := Nat.two_pow_pos n
      exact ⟨n, by omega⟩

/-! ### The rate -/

private theorem toNat_pred {rate : UInt8} (h : 1 ≤ rate.toNat) : (rate - 1).toNat = rate.toNat - 1 := by
  have hone : (1 : UInt8) ≤ rate := UInt8.le_iff_toNat_le.2 h
  exact UInt8.toNat_sub_of_le _ _ hone

/-- From `2 ^ m` on, the loop lowers the rate by one for each doubling up to the frequency. -/
private theorem rtcRate_doubles {m j fuel : Nat} {rate : UInt8} (hfuel : j ≤ fuel) (hmax : m + j ≤ 10)
    (hrate : j ≤ rate.toNat) :
    (rtcRate (2 ^ (m + j)) fuel (2 ^ m) rate).toNat = rate.toNat - j := by
  induction j generalizing m fuel rate with
  | zero =>
    cases fuel with
    | zero => simp [rtcRate]
    | succ fuel => simp [rtcRate]
  | succ j ih =>
    obtain ⟨fuel, rfl⟩ : ∃ n, fuel = n + 1 := ⟨fuel - 1, by omega⟩
    have hgoes : (2 : Int) ^ (m + (j + 1)) > 2 ^ m ∧ (2 : Int) ^ m < 1024 := by
      constructor
      · exact pow_lt_pow_right₀ (by decide) (by omega)
      · calc (2 : Int) ^ m < 2 ^ 10 := pow_lt_pow_right₀ (by decide) (by omega)
          _ = 1024 := rfl
    have hless : (rate - 1).toNat = rate.toNat - 1 := toNat_pred (by omega)
    rw [rtcRate, if_pos hgoes, ← pow_succ, show m + (j + 1) = m + 1 + j by omega,
      ih (by omega) (by omega) (by omega), hless]
    omega

/-- A frequency up to 4 is left at the lowest rate. -/
private theorem rtcRate_low {f : Int} (h : f ≤ 4) (fuel : Nat) : rtcRate f fuel 4 0x0F = 0x0F := by
  cases fuel with
  | zero => rfl
  | succ fuel => rw [rtcRate, if_neg (by omega)]

/-- The rate for one of the frequencies 4 to 1024: `2 ^ n` gets that of half of it. -/
private theorem rtcRate_pow {n : Nat} (hlo : 2 ≤ n) (hhi : n ≤ 10) : (rtcRate (2 ^ n) 8 4 0x0F).toNat = 17 - n := by
  have hroom : n - 2 ≤ (0x0F : UInt8).toNat := by
    show n - 2 ≤ 15
    omega
  have hrate : (rtcRate (2 ^ (2 + (n - 2))) 8 (2 ^ 2) 0x0F).toNat = (0x0F : UInt8).toNat - (n - 2) :=
    rtcRate_doubles (by omega) (by omega) hroom
  rw [show 2 + (n - 2) = n by omega] at hrate
  have hfifteen : (0x0F : UInt8).toNat = 15 := rfl
  rw [show (4 : Int) = 2 ^ 2 from rfl, hrate, hfifteen]
  omega

/-- The loop only lowers the rate, once in a round. -/
theorem rtcRate_bounds (f : Int) {fuel : Nat} (temp : Int) {rate : UInt8} (h : fuel ≤ rate.toNat) :
    rate.toNat - fuel ≤ (rtcRate f fuel temp rate).toNat ∧ (rtcRate f fuel temp rate).toNat ≤ rate.toNat := by
  induction fuel generalizing temp rate with
  | zero => exact ⟨Nat.sub_le _ _, le_refl _⟩
  | succ fuel ih =>
    rw [rtcRate]
    split
    · have hless : (rate - 1).toNat = rate.toNat - 1 := toNat_pred (by omega)
      have hrest := ih (temp * 2) (show fuel ≤ (rate - 1).toNat by omega)
      omega
    · omega

/-! ### Register A -/

/-- The frequency that register A selects: its low four bits are the rate. -/
def rtcFrequency (a : UInt8) : Nat := 32768 / 2 ^ ((a &&& 0x0F).toNat - 1)

/-- The rate that is set is in the low four bits of register A. -/
private theorem rtcFrequency_set (a : UInt8) (f : Int) : rtcFrequency ((a &&& 0xF0) ||| rtcRate f 8 4 0x0F) =
    32768 / 2 ^ ((rtcRate f 8 4 0x0F).toNat - 1) := by
  have hbound := (rtcRate_bounds f 4 (by decide : 8 ≤ (0x0F : UInt8).toNat)).2
  have hfifteen : (0x0F : UInt8).toNat = 2 ^ 4 - 1 := rfl
  rw [rtcFrequency, and_or_of_disjoint rfl, UInt8.toNat_and, hfifteen, Nat.and_two_pow_sub_one_eq_mod,
    Nat.mod_eq_of_lt (by omega)]

/-- `rtc_set_frequency` writes the rate into register A and succeeds. -/
theorem rtcSetFrequency_spec (r : Rtc) (f : Int) : (rtcSetFrequency r f).2 = 4 ∧
    (rtcSetFrequency r f).1.cmos = Function.update r.cmos 0x0A ((r.cmos 0x0A &&& 0xF0) ||| rtcRate f 8 4 0x0F) :=
  ⟨rfl, rfl⟩

/-! ### What is asked for, and what is set -/

/-- A power of two from 2 to 1024. -/
def ValidFrequency (f : Int) : Prop := ∃ n : Nat, 1 ≤ n ∧ n ≤ 10 ∧ f = 2 ^ n

/-- The call asks for a frequency: there are four bytes in the buffer. -/
def Requests (buf : Ptr) (nbytes f : Int) : Prop := nbytes = 4 ∧ ∃ b, buf = some b ∧ int32At b = f

/-- A valid request succeeds and sets its frequency; another call fails and changes no register. -/
structure SetsFrequency (r : Rtc) (buf : Ptr) (nbytes : Int) : Prop where
  valid : ∀ f, Requests buf nbytes f → ValidFrequency f →
    (rtcWrite r buf nbytes).2 = 4 ∧ (rtcFrequency ((rtcWrite r buf nbytes).1.cmos 0x0A) : Int) = f
  invalid : (∀ f, Requests buf nbytes f → ¬ValidFrequency f) →
    (rtcWrite r buf nbytes).2 = -1 ∧ (rtcWrite r buf nbytes).1.cmos = r.cmos

/-- The requests that pass the test for a power of two, but for the frequency 2. -/
def WrongRate (buf : Ptr) (nbytes : Int) : Prop :=
  ∃ f, Requests buf nbytes f ∧ (f = 0 ∨ f = 1 ∨ f = -2147483648 ∨ (ValidFrequency f ∧ f ≠ 2))

section Write

variable {r : Rtc} {buf : Ptr} {nbytes f : Int}

/-- What passes the test of `rtc_write`. -/
theorem rtcWrite_request (h : Requests buf nbytes f) : rtcWrite r buf nbytes =
    if f ≤ 1024 ∧ (f = 0 ∨ f = -2147483648 ∨ ∃ n : Nat, n ≤ 10 ∧ f = 2 ^ n) then rtcSetFrequency r f else (r, -1) := by
  obtain ⟨rfl, b, rfl, rfl⟩ := h
  have hrange := toInt32_lt
    ((b 0).toNat + 0x100 * (b 1).toNat + 0x10000 * (b 2).toNat + 0x1000000 * (b 3).toNat)
  have hlo : -2147483648 ≤ int32At b := hrange.1
  unfold rtcWrite
  dsimp only
  rw [if_neg (by decide)]
  -- the test for a power of two, on the frequencies that are not too high
  have hrejects : (BitVec.ofInt 32 (int32At b) &&& BitVec.ofInt 32 (int32At b - 1) ≠ 0 ∨ int32At b > 1024) ↔
      ¬(int32At b ≤ 1024 ∧ (int32At b = 0 ∨ int32At b = -2147483648 ∨ ∃ n : Nat, n ≤ 10 ∧ int32At b = 2 ^ n)) := by
    by_cases hhi : int32At b ≤ 1024
    · rw [not_and, ← powerTest_iff hlo hhi]
      exact ⟨fun hbad _ => hbad.resolve_right (by omega), fun hbits => .inl (hbits hhi)⟩
    · exact iff_of_true (.inr (by omega)) fun hc => hhi hc.1
  split
  · next hbad => rw [if_neg (hrejects.1 hbad)]
  · next hgood => rw [if_pos (not_not.1 (mt hrejects.2 hgood))]

private theorem validFrequency_le (h : ValidFrequency f) : 2 ≤ f ∧ f ≤ 1024 := by
  obtain ⟨n, hlo, hhi, rfl⟩ := h
  constructor
  · calc (2 : Int) = 2 ^ 1 := rfl
      _ ≤ 2 ^ n := pow_le_pow_right₀ (by decide) hlo
  · calc (2 : Int) ^ n ≤ 2 ^ 10 := pow_le_pow_right₀ (by decide) hhi
      _ = 1024 := rfl

/-- A valid request succeeds. -/
private theorem rtcWrite_valid (h : Requests buf nbytes f) (hf : ValidFrequency f) :
    rtcWrite r buf nbytes = rtcSetFrequency r f := by
  have hle := (validFrequency_le hf).2
  obtain ⟨n, -, hn, heq⟩ := hf
  rw [rtcWrite_request h, if_pos ⟨hle, .inr (.inr ⟨n, hn, heq⟩)⟩]

/-- And the frequency is half of what it asks for, but for 2. -/
theorem rtcWrite_halves (h : Requests buf nbytes f) (hf : ValidFrequency f) :
    (rtcFrequency ((rtcWrite r buf nbytes).1.cmos 0x0A) : Int) = if f = 2 then 2 else f / 2 := by
  rw [rtcWrite_valid h hf, (rtcSetFrequency_spec r f).2, Function.update_self, rtcFrequency_set]
  obtain ⟨n, hlo, hhi, rfl⟩ := hf
  by_cases hone : n = 1
  · subst hone
    rw [rtcRate_low (by decide)]
    rfl
  have hne : (2 : Int) ^ n ≠ 2 := by
    intro heq
    exact hone (Int.pow_right_injective (by decide) (heq.trans (pow_one 2).symm))
  rw [if_neg hne, rtcRate_pow (by omega) hhi]
  interval_cases n <;> omega

/-- A call with no buffer, or with another number of bytes. -/
theorem rtcWrite_no_request (h : ∀ f, ¬Requests buf nbytes f) : rtcWrite r buf nbytes = (r, -1) := by
  cases buf with
  | none => rfl
  | some b =>
    have hbytes : nbytes ≠ 4 := fun heq => h (int32At b) ⟨heq, b, rfl, rfl⟩
    unfold rtcWrite
    dsimp only
    rw [if_pos hbytes]

private theorem SetsFrequency.not_wrongRate (h : SetsFrequency r buf nbytes) : ¬WrongRate buf nbytes := by
  rintro ⟨f, hrequest, hf⟩
  by_cases hvalid : ValidFrequency f
  · -- the frequency that is set is half of it
    have hle := validFrequency_le hvalid
    have hset := (h.valid f hrequest hvalid).2
    have hne : f ≠ 2 := by
      rcases hf with heq | heq | heq | ⟨-, hne⟩
      · omega
      · omega
      · omega
      · exact hne
    rw [rtcWrite_halves hrequest hvalid, if_neg hne] at hset
    omega
  · -- it is accepted all the same
    have haccept : f ≤ 1024 ∧ (f = 0 ∨ f = -2147483648 ∨ ∃ n : Nat, n ≤ 10 ∧ f = 2 ^ n) := by
      rcases hf with rfl | rfl | rfl | ⟨hvalid', -⟩
      · exact ⟨by decide, .inl rfl⟩
      · exact ⟨by decide, .inr (.inr ⟨0, by decide, rfl⟩)⟩
      · exact ⟨by decide, .inr (.inl rfl)⟩
      · exact absurd hvalid' hvalid
    have honly : ∀ g, Requests buf nbytes g → ¬ValidFrequency g := by
      rintro g ⟨-, b, hb, rfl⟩
      obtain ⟨-, b', hb', rfl⟩ := hrequest
      obtain rfl : b = b' := Option.some.inj (hb.symm.trans hb')
      exact hvalid
    have hfails := (h.invalid honly).1
    rw [rtcWrite_request hrequest, if_pos haccept, (rtcSetFrequency_spec r f).1] at hfails
    exact absurd hfails (by decide)

private theorem setsFrequency_of_not_wrongRate (h : ¬WrongRate buf nbytes) : SetsFrequency r buf nbytes where
  valid f hrequest hvalid := by
    have htwo : f = 2 := by
      by_contra hne
      exact h ⟨f, hrequest, .inr (.inr (.inr ⟨hvalid, hne⟩))⟩
    refine ⟨by rw [rtcWrite_valid hrequest hvalid, (rtcSetFrequency_spec r f).1], ?_⟩
    rw [rtcWrite_halves hrequest hvalid, if_pos htwo, htwo]
  invalid hnone := by
    by_cases hrequest : ∃ f, Requests buf nbytes f
    · obtain ⟨f, hf⟩ := hrequest
      rw [rtcWrite_request hf, if_neg]
      · exact ⟨rfl, rfl⟩
      · rintro ⟨-, hzero | hleast | ⟨n, hn, heq⟩⟩
        · exact h ⟨f, hf, .inl hzero⟩
        · exact h ⟨f, hf, .inr (.inr (.inl hleast))⟩
        · by_cases hone : n = 0
          · exact h ⟨f, hf, .inr (.inl (by rw [heq, hone]; rfl))⟩
          · exact hnone f hf ⟨n, by omega, hn, heq⟩
    · rw [rtcWrite_no_request fun f hf => hrequest ⟨f, hf⟩]
      exact ⟨rfl, rfl⟩

end Write

/-- The frequency of the clock.  For every state of the clock and every call: `rtc_write` sets what is asked for if that
is a power of two from 2 to 1024, and fails without a change if not, exactly if it is not asked for 0, 1, the least
`int32_t` or a power of two from 4 to 1024. -/
theorem rtc_write_sets_iff (r : Rtc) (buf : Ptr) (nbytes : Int) :
    SetsFrequency r buf nbytes ↔ ¬WrongRate buf nbytes :=
  ⟨SetsFrequency.not_wrongRate, setsFrequency_of_not_wrongRate⟩

/-- The four bytes of a small number. -/
def bytesOf (n : Nat) : Nat → UInt8 :=
  fun i => if i = 0 then UInt8.ofNat n else if i = 1 then UInt8.ofNat (n / 256) else 0

/-- The clock at power on. -/
def rtc₀ : Rtc := { index := 0, cmos := fun _ => 0x20, interruptFlag := false }

/-- 1024 is set to 512, and 0 is accepted. -/
theorem rtc_write_wrong_rate :
    rtcFrequency ((rtcWrite rtc₀ (some (bytesOf 1024)) 4).1.cmos 0x0A) = 512 ∧
      (rtcWrite rtc₀ (some (bytesOf 0)) 4).2 = 4 ∧ ¬SetsFrequency rtc₀ (some (bytesOf 1024)) 4 ∧
      ¬SetsFrequency rtc₀ (some (bytesOf 0)) 4 := by
  have hhalf : rtcFrequency ((rtcWrite rtc₀ (some (bytesOf 1024)) 4).1.cmos 0x0A) = 512 := by decide +kernel
  have hzero : (rtcWrite rtc₀ (some (bytesOf 0)) 4).2 = 4 := by decide +kernel
  have hvalid : ValidFrequency 1024 := ⟨10, by decide, by decide, rfl⟩
  refine ⟨hhalf, hzero, fun hsets => ?_, fun hsets => ?_⟩
  · have hset := (hsets.valid 1024 ⟨rfl, _, rfl, by decide +kernel⟩ hvalid).2
    rw [hhalf] at hset
    exact absurd hset (by decide)
  · exact hsets.not_wrongRate ⟨0, ⟨rfl, _, rfl, by decide +kernel⟩, .inl rfl⟩

end BigChungOS
