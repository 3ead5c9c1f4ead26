import BigChungOS.CommandKeys

/-!
# The shift keys and caps lock

The table of a text key should be the one for whether a shift key is held down and whether caps lock has been pressed an
odd number of times.  `flag_keys` is all the handler knows: caps lock complements its flag, 1 and -2 by turns, and that
is right; but the two shift keys share one flag, which the release of either clears.  So the table is the right one as
long as no shift key is released while the other is held (`modifiers_tracked_iff`).  One of the four cases always
matches.
-/

namespace BigChungOS

open Transition

/-- The kernel, which of the shift keys are held down, and how often caps lock has been pressed. -/
structure Modifiers where
  kernel : Kernel
  leftShift : Bool
  rightShift : Bool
  capsPresses : Nat

/-- The keys after a scan code. -/
def Modifiers.key (s : Modifiers) (scanCode : Nat) (past : UInt8) : Modifiers where
  kernel := (keyboardHandler s.kernel scanCode past).1
  leftShift := if scanCode = 0x2A then true else if scanCode = 0xAA then false else s.leftShift
  rightShift := if scanCode = 0x36 then true else if scanCode = 0xB6 then false else s.rightShift
  capsPresses := if scanCode = 0x3A then s.capsPresses + 1 else s.capsPresses

/-- A shift key is held down. -/
def Modifiers.shift (s : Modifiers) : Bool := s.leftShift || s.rightShift

/-- A scan code, with what lies behind the tables; a shift key is pressed only while it is up. -/
inductive ModifierStep : Modifiers → Nat × UInt8 → Modifiers → Prop
  | key {s : Modifiers} {scanCode : Nat} {past : UInt8} (hleft : scanCode = 0x2A → s.leftShift = false)
      (hright : scanCode = 0x36 → s.rightShift = false) : ModifierStep s (scanCode, past) (s.key scanCode past)

/-- The case for the keys that are held down and the presses of caps lock. -/
def Modifiers.caseKey (s : Modifiers) : Nat := (if s.shift then 1 else 0) + (if s.capsPresses % 2 = 1 then 2 else 0)

/-- Text keys are looked up in the table of the right case, and every scan code in that of one case. -/
structure ModifiersTracked (s : Modifiers) : Prop where
  table : ∀ scanCode, isText scanCode = true → caseKeys (s.kernel.keyboard.updateFlags scanCode) = [s.caseKey]
  single : ∀ scanCode, ∃ caseKey, caseKeys (s.kernel.keyboard.updateFlags scanCode) = [caseKey]

/-- No shift key is released while the other one is held. -/
def NoOverlap (s : Modifiers) (code : Nat × UInt8) : Prop :=
  (code.1 = 0xAA → s.rightShift = false) ∧ (code.1 = 0xB6 → s.leftShift = false)

instance (s : Modifiers) (code : Nat × UInt8) : Decidable (NoOverlap s code) :=
  inferInstanceAs (Decidable (_ ∧ _))

/-! ### The flags -/

private theorem updateFlags_shiftFlag (kb : Keyboard) (scanCode : Nat) : (kb.updateFlags scanCode).shiftFlag =
    if scanCode = 0xAA ∨ scanCode = 0xB6 then 0 else if scanCode = 0x2A ∨ scanCode = 0x36 then 1 else kb.shiftFlag := by
  simp only [Keyboard.updateFlags, apply_ite Keyboard.shiftFlag, ite_self]

private theorem updateFlags_capsFlag (kb : Keyboard) (scanCode : Nat) :
    (kb.updateFlags scanCode).capsFlag = if scanCode = 0x3A then -kb.capsFlag - 1 else kb.capsFlag := by
  simp only [Keyboard.updateFlags, apply_ite Keyboard.capsFlag, ite_self]

/-- A text key is no modifier. -/
private theorem updateFlags_text (kb : Keyboard) {scanCode : Nat} (h : isText scanCode = true) :
    kb.updateFlags scanCode = kb := by
  have hmodifier : ∀ c ∈ ([0x2A, 0x36, 0x3A, 0x1D, 0x38, 0xAA, 0xB6, 0x9D, 0xB8] : List Nat), isText c = false := by
    decide
  have hcode : scanCode ∉ ([0x2A, 0x36, 0x3A, 0x1D, 0x38, 0xAA, 0xB6, 0x9D, 0xB8] : List Nat) := by
    intro hmem
    rw [hmodifier scanCode hmem] at h
    cases h
  simp only [List.mem_cons, List.not_mem_nil, or_false, not_or] at hcode
  unfold Keyboard.updateFlags
  simp [hcode]

/-! ### The invariant -/

/-- The shift flag says whether a shift key is held, and the caps flag the parity of the presses of caps lock. -/
structure FlagsTrack (s : Modifiers) : Prop where
  shiftFlag : s.kernel.keyboard.shiftFlag = if s.shift then 1 else 0
  capsFlag : s.kernel.keyboard.capsFlag = if s.capsPresses % 2 = 1 then -2 else 1

section Step

variable {s t : Modifiers} {code : Nat × UInt8}

private theorem FlagsTrack.flagsOk (h : FlagsTrack s) : FlagsOk s.kernel.keyboard := by
  rw [FlagsOk, h.shiftFlag, h.capsFlag]
  constructor
  · split
    · exact .inr rfl
    · exact .inl rfl
  · split
    · exact .inr rfl
    · exact .inl rfl

/-- Flags that track the keys select their case. -/
theorem FlagsTrack.caseKeys (h : FlagsTrack s) : caseKeys s.kernel.keyboard = [s.caseKey] := by
  unfold BigChungOS.caseKeys Modifiers.caseKey
  rw [h.shiftFlag, h.capsFlag]
  by_cases hshift : s.shift = true <;> by_cases hcaps : s.capsPresses % 2 = 1 <;> simp [hshift, hcaps]

private theorem FlagsTrack.tracked (h : FlagsTrack s) : ModifiersTracked s where
  table scanCode htext := by
    rw [updateFlags_text _ htext]
    exact h.caseKeys
  single scanCode := caseKeys_updateFlags h.flagsOk scanCode

/-- The release of a shift key that is down alone leaves none down. -/
private theorem NoOverlap.key_shift {scanCode : Nat} {past : UInt8} (hc : NoOverlap s (scanCode, past)) :
    (s.key scanCode past).shift = if scanCode = 0xAA ∨ scanCode = 0xB6 then false
      else if scanCode = 0x2A ∨ scanCode = 0x36 then true else s.shift := by
  obtain ⟨hleft, hright⟩ := hc
  unfold Modifiers.shift Modifiers.key
  dsimp only at hleft hright ⊢
  by_cases hreleaseLeft : scanCode = 0xAA
  · simp [hreleaseLeft, hleft hreleaseLeft]
  by_cases hreleaseRight : scanCode = 0xB6
  · simp [hreleaseRight, hright hreleaseRight]
  by_cases hpressLeft : scanCode = 0x2A
  · simp [hpressLeft]
  by_cases hpressRight : scanCode = 0x36
  · simp [hpressRight]
  simp [hreleaseLeft, hreleaseRight, hpressLeft, hpressRight]

private theorem FlagsTrack.key_capsFlag (h : FlagsTrack s) (scanCode : Nat) (past : UInt8) :
    (s.key scanCode past).kernel.keyboard.capsFlag = if (s.key scanCode past).capsPresses % 2 = 1 then -2 else 1 := by
  have hflag : (s.key scanCode past).kernel.keyboard.capsFlag = _ :=
    (keyboardHandler_flags s.kernel scanCode past).capsFlag
  rw [hflag, updateFlags_capsFlag, h.capsFlag]
  unfold Modifiers.key
  dsimp only
  by_cases hcaps : scanCode = 0x3A
  · -- one press more, and the complement of the flag
    rw [if_pos hcaps, if_pos hcaps]
    split_ifs <;> omega
  · rw [if_neg hcaps, if_neg hcaps]

/-- Every scan code but the release of one of two shift keys that are down. -/
theorem FlagsTrack.key (h : FlagsTrack s) (hc : NoOverlap s code) (hstep : ModifierStep s code t) : FlagsTrack t := by
  cases hstep with
  | @key scanCode past =>
    refine ⟨?_, h.key_capsFlag scanCode past⟩
    have hflag : (s.key scanCode past).kernel.keyboard.shiftFlag = _ :=
      (keyboardHandler_flags s.kernel scanCode past).shiftFlag
    rw [hflag, updateFlags_shiftFlag, hc.key_shift, h.shiftFlag]
    split
    · rfl
    · split
      · rfl
      · rfl

/-- The release of a shift key clears the flag, even if the other is still held. -/
private theorem not_tracked_of_overlap (h : FlagsTrack s) (hc : ¬NoOverlap s code) (hstep : ModifierStep s code t) :
    ¬ModifiersTracked t := by
  intro htracked
  cases hstep with
  | @key scanCode past =>
    -- the other key is held, and the flag says that none is
    have hheld : (s.key scanCode past).shift = true ∧ (scanCode = 0xAA ∨ scanCode = 0xB6) := by
      unfold NoOverlap at hc
      unfold Modifiers.shift Modifiers.key
      dsimp only at hc ⊢
      by_cases hleft : scanCode = 0xAA
      · have hright : s.rightShift = true := by
          by_contra hup
          refine hc ⟨fun _ => by simpa using hup, fun heq => ?_⟩
          omega
        simp [hleft, hright]
      · have hrelease : scanCode = 0xB6 ∧ s.leftShift = true := by
          by_contra hup
          refine hc ⟨fun heq => absurd heq hleft, fun heq => ?_⟩
          by_contra hdown
          exact hup ⟨heq, by simpa using hdown⟩
        simp [hrelease.1, hrelease.2]
    have hflag : (s.key scanCode past).kernel.keyboard.shiftFlag = 0 :=
      ((keyboardHandler_flags s.kernel scanCode past).shiftFlag.trans (updateFlags_shiftFlag _ scanCode)).trans
        (if_pos hheld.2)
    have hcase := htracked.table 0x1E (by decide)
    rw [updateFlags_text _ (by decide)] at hcase
    unfold BigChungOS.caseKeys Modifiers.caseKey at hcase
    rw [hflag, h.key_capsFlag, hheld.1] at hcase
    by_cases hcaps : (s.key scanCode past).capsPresses % 2 = 1
    · simp [hcaps] at hcase
    · simp [hcaps] at hcase

end Step

/-! ### Runs -/

/-- In every run of scan codes, overlapping or not, one case matches. -/
theorem one_case_matches {k : Kernel} {left right : Bool} {n : Nat} {codes : List (Nat × UInt8)} {s : Modifiers}
    (hflags : FlagsOk k.keyboard) (hrun : Run ModifierStep ⟨k, left, right, n⟩ codes s) (scanCode : Nat) :
    ∃ caseKey, caseKeys (s.kernel.keyboard.updateFlags scanCode) = [caseKey] := by
  have hok : FlagsOk s.kernel.keyboard := by
    refine Run.invariant (P := fun s => FlagsOk s.kernel.keyboard) ?_ hrun hflags
    rintro s code t hs hstep
    cases hstep with
    | @key scanCode past =>
      have hkb := keyboardHandler_flags s.kernel scanCode past
      have hupdated : FlagsOk (s.kernel.keyboard.updateFlags scanCode) := updateFlags_flagsOk hs
      show FlagsOk (keyboardHandler s.kernel scanCode past).1.keyboard
      rw [FlagsOk, hkb.shiftFlag, hkb.capsFlag]
      exact hupdated
  exact caseKeys_updateFlags hok scanCode

/-- Modifier tracking.  From flags that say that nothing is held and caps lock is off, along every run of scan codes
that press a shift key only while it is up, in which none is released while the other is held, text keys are looked up
in the table for the shift keys that are held and the presses of caps lock, and one case matches for every key; and from
there a scan code keeps this exactly when it meets the condition. -/
theorem modifiers_tracked_iff {k : Kernel} {codes : List (Nat × UInt8)} {s : Modifiers}
    (hshift : k.keyboard.shiftFlag = 0) (hcaps : k.keyboard.capsFlag = 1)
    (hrun : Run (Guarded NoOverlap ModifierStep) ⟨k, false, false, 0⟩ codes s) :
    ModifiersTracked s ∧ ∀ code t, ModifierStep s code t → (ModifiersTracked t ↔ NoOverlap s code) := by
  have hstart : FlagsTrack ⟨k, false, false, 0⟩ := ⟨hshift, hcaps⟩
  refine Run.guarded_exact (I := FlagsTrack) ?_ ?_ hrun hstart hstart.tracked
  · exact fun s code t hs _ hc hstep => hs.key hc hstep
  · intro s code t hs _ hstep
    constructor
    · intro htracked
      by_contra hc
      exact not_tracked_of_overlap hs hc hstep htracked
    · exact fun hc => (hs.key hc hstep).tracked

/-- The keys after a list of scan codes. -/
def keysAfter (k : Kernel) (codes : List Nat) : Modifiers :=
  codes.foldl (fun s c => s.key c 0) ⟨k, false, false, 0⟩

/-- The left shift key and caps lock, one after the other. -/
theorem shift_caps_tracked :
    let s := keysAfter (entry shellBoot) [0x2A, 0xAA, 0x3A, 0x2A]
    s.caseKey = 3 ∧ ModifiersTracked s ∧ ∀ code t, ModifierStep s code t → (ModifiersTracked t ↔ NoOverlap s code) := by
  intro s
  have hrun : Run (Guarded NoOverlap ModifierStep) (keysAfter (entry shellBoot) [])
      ([] ++ [(0x2A, 0)] ++ [(0xAA, 0)] ++ [(0x3A, 0)] ++ [(0x2A, 0)]) s :=
    .snoc (.snoc (.snoc (.snoc (.nil _) ⟨by decide +kernel, .key (by decide +kernel) (by decide +kernel)⟩)
      ⟨by decide +kernel, .key (by decide +kernel) (by decide +kernel)⟩)
      ⟨by decide +kernel, .key (by decide +kernel) (by decide +kernel)⟩)
      ⟨by decide +kernel, .key (by decide +kernel) (by decide +kernel)⟩
  exact ⟨by decide +kernel, modifiers_tracked_iff (by decide +kernel) (by decide +kernel) hrun⟩

/-- Both shift keys are pressed and the left one is released: the right one is held, and `a` is looked up in the table
without shift. -/
theorem overlapping_shifts_lost :
    let s := keysAfter (entry shellBoot) [0x2A, 0x36, 0xAA]
    Run ModifierStep ⟨entry shellBoot, false, false, 0⟩ [(0x2A, 0), (0x36, 0), (0xAA, 0)] s ∧ s.rightShift = true ∧
      s.caseKey = 1 ∧ caseKeys s.kernel.keyboard = [0] ∧ keyChar s.kernel.keyboard 0x1E 0 = 0x61 ∧
      ¬ModifiersTracked s := by
  intro s
  have hrun : Run ModifierStep (keysAfter (entry shellBoot) []) ([] ++ [(0x2A, 0)] ++ [(0x36, 0)] ++ [(0xAA, 0)]) s :=
    .snoc (.snoc (.snoc (.nil _) (.key (by decide +kernel) (by decide +kernel)))
      (.key (by decide +kernel) (by decide +kernel))) (.key (by decide +kernel) (by decide +kernel))
  have hcase : caseKeys (s.kernel.keyboard.updateFlags 0x1E) = [0] := by decide +kernel
  have hwanted : s.caseKey = 1 := by decide +kernel
  refine ⟨hrun, by decide +kernel, hwanted, by decide +kernel, by decide +kernel, fun htracked => ?_⟩
  have hsame := htracked.table 0x1E (by decide)
  rw [hcase, hwanted] at hsame
  exact absurd hsame (by decide)

end BigChungOS
